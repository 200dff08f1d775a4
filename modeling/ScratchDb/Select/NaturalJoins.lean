import ScratchDb.Lib.NamedRows
import ScratchDb.Select.EquatedColumns
import ScratchDb.Select.MergedNames

/-!
# Natural joins

A chain of NATURAL JOINs in `execute_join` of `src/query/query_executor.cpp`. The
loop carries the merged columns and the rows of the tables it has come to, and
they are the natural join of the tables as lists of named values: one row for
each choice of rows that agree on every column name they share, with each name
once, in the order of its first table.
-/

namespace ScratchDb.Select

open NamedRows NestedLoop

/-! ## Tables as lists of named values -/

/-- The columns of a table behind their names. -/
def header (schema : Schema) : List (String × Column) := schema.columns.map fun c => (c.name, c)

def namedRow (schema : Schema) (row : TableRow) : List (String × Value) :=
  (columnNames schema).zip row.values

def JoinedTable.namedRows (t : JoinedTable) : List (List (String × Value)) :=
  t.rows.map (namedRow t.schema)

/-- `natural_join_matches` asks for values that compare equal. -/
def sameValue (v w : Value) : Bool := Value.compareValues v w == .eq

def mergedHeader (ts : List JoinedTable) : List (String × Column) :=
  mergeAll (ts.map fun t => header t.schema)

/-- The texts of a merged row. -/
def mergedTexts (texts : ValueTexts) (ts : List JoinedTable) (row : List (String × Value)) :
    List String :=
  ((mergedHeader ts).map (·.2)).zipWith texts.formatValue (row.map (·.2))

/-- The table that a NATURAL JOIN adds. -/
structure JoinsNaturally (tables : String → Option JoinedTable) (join : QueryJoin)
    (t : JoinedTable) : Prop where
  type : join.type = .natural
  table : tables join.tableName = some t

/-- Columns of one name have one type. -/
def SameTypes (ts : List JoinedTable) : Prop :=
  ∀ t ∈ ts, ∀ t' ∈ ts, ∀ c ∈ t.schema.columns, ∀ c' ∈ t'.schema.columns,
    c.name = c'.name → c.type = c'.type

theorem names_header (schema : Schema) : names (header schema) = columnNames schema := by
  rw [names, header, List.map_map]
  rfl

theorem names_namedRow {schema : Schema} {row : TableRow}
    (h : row.values.length = schema.columns.length) :
    names (namedRow schema row) = columnNames schema := by
  rw [names, namedRow, List.map_fst_zip]
  rw [columnNames, List.length_map, h]

/-- The value of a row behind a name is that of the column with the name. -/
theorem lookup_namedRow (side : JoinSide) (name : String) :
    (namedRow side.schema side.row).lookup name = side.value name := by
  rw [namedRow, columnNames, JoinSide.value, SchemaParts.columnIndex]
  generalize side.row.values = values
  induction side.schema.columns generalizing values with
  | nil => rfl
  | cons c columns ih =>
    cases values with
    | nil => simp
    | cons v values =>
      rw [List.map_cons, List.zip_cons_cons, List.lookup_cons, List.findIdx?_cons]
      by_cases hname : name = c.name
      · rw [hname]
        simp
      · rw [beq_eq_false_iff_ne.mpr hname, ih]
        have hname' : decide (c.name = name) = false := by simpa using fun h => hname h.symm
        rw [hname']
        cases columns.findIdx? fun x => decide (x.name = name) with
        | none => rfl
        | some i => rfl

/-- Values of one type compare equal only if they are, and NULL equals NULL alone. -/
theorem sameValue_iff {v w : Value}
    (htypes : v.isNull = false → w.isNull = false → v.type = w.type) :
    sameValue v w = true ↔ v = w := by
  rw [sameValue, beq_iff_eq]
  constructor
  · intro hcompare
    cases hv : v.isNull with
    | false =>
      cases hw : w.isNull with
      | false => exact Value.eq_of_compareValues (htypes hv hw) hcompare
      | true => simp [Value.compareValues, hv, hw] at hcompare
    | true =>
      cases hw : w.isNull with
      | false => simp [Value.compareValues, hv, hw] at hcompare
      | true =>
        have hnull : ∀ u : Value, u.isNull = true → u = .null := by
          intro u hu
          cases u with
          | null => rfl
          | integer n | number n | character s | string s | varstring s | text s | date n | time n
          | datetime n => cases hu
        rw [hnull v hv, hnull w hw]
  · rintro rfl
    exact Value.compareValues_self v

/-! ## One pair of rows -/

/-- The rows that `natural_join_matches` lets through agree on the names they share. -/
theorem naturalJoinMatches_eq {leftSide rightSide : JoinSide}
    (hl : leftSide.row.values.length = leftSide.schema.columns.length)
    (hr : rightSide.row.values.length = rightSide.schema.columns.length) :
    naturalJoinMatches leftSide rightSide =
      agrees sameValue (namedRow leftSide.schema leftSide.row)
        (namedRow rightSide.schema rightSide.row) := by
  have hnames := names_namedRow hl
  have hnodup : (names (namedRow leftSide.schema leftSide.row)).Nodup := by
    rw [hnames]
    exact leftSide.schema.columnsValid.2.2.2
  rw [Bool.eq_iff_iff, naturalJoinMatches, agrees, List.all_eq_true, List.all_eq_true]
  -- a column of the right table is a name of its row
  have hright : ∀ name, (rightSide.schema.findColumn name).isSome = true ↔
      ∃ w, rightSide.value name = some w := by
    intro name
    rw [isSome_findColumn, ← names_namedRow hr, ← Option.isSome_iff_exists, ← lookup_namedRow,
      List.lookup_isSome_iff, names, List.mem_map]
    exact exists_congr fun p => and_congr_right fun _ => by rw [beq_iff_eq, eq_comm]
  constructor
  · intro hall p hp
    have hname : p.1 ∈ columnNames leftSide.schema := hnames ▸ List.mem_map_of_mem hp
    obtain ⟨c, hc, hcname⟩ := List.mem_map.mp hname
    have hvalue : leftSide.value p.1 = some p.2 := by
      rw [← lookup_namedRow]
      exact lookup_of_mem hnodup hp
    have hmatch := hall c hc
    rw [hcname, hvalue] at hmatch
    rw [lookup_namedRow]
    cases hw : rightSide.value p.1 with
    | none => rfl
    | some w =>
      obtain ⟨column, hcolumn⟩ := Option.isSome_iff_exists.mp ((hright p.1).mpr ⟨w, hw⟩)
      rw [hcolumn, hw] at hmatch
      exact hmatch
  · intro hall c hc
    cases hcolumn : rightSide.schema.findColumn c.name with
    | none => rfl
    | some column =>
      obtain ⟨w, hw⟩ := (hright c.name).mp (by rw [hcolumn]; rfl)
      have hname : c.name ∈ names (namedRow leftSide.schema leftSide.row) :=
        hnames ▸ List.mem_map_of_mem hc
      obtain ⟨p, hp, hpname⟩ := List.mem_map.mp hname
      have hvalue : leftSide.value c.name = some p.2 := by
        rw [← lookup_namedRow, ← hpname]
        exact lookup_of_mem hnodup hp
      have hmatch := hall p hp
      rw [hpname, lookup_namedRow, hw] at hmatch
      rw [hvalue, hw]
      exact hmatch

section Pair

variable {state : JoinState} {join : QueryJoin} {right : RightTable} (htype : join.type = .natural)

include htype

/-- The columns that a natural join adds keep their names. -/
theorem addedColumns_natural (seen : List String) (columns : List Column) :
    ∀ c ∈ addedColumns join.type seen columns, c.2 = c.1.name := by
  induction columns generalizing seen with
  | nil => exact fun c hc => by cases hc
  | cons column columns ih =>
    intro c hc
    rw [addedColumns] at hc
    split at hc
    · exact ih seen c hc
    · rename_i hfree
      rcases List.mem_cons.mp hc with rfl | hc
      · exact freeName_of_not_mem fun hmem => hfree ⟨htype, hmem⟩
      · exact ih _ c hc

/-- A pair of rows merges as named values. -/
theorem zip_combinedValues {l r : TableRow} (hl : l.values.length = state.schema.columns.length)
    (hr : r.values.length = right.schema.columns.length) :
    (columnNames state.schema ++ (columnNames right.schema).filter (· ∉ columnNames state.schema)).zip
        (combinedValues state join right l r) =
      merge (namedRow state.schema l) (namedRow right.schema r) := by
  have hlength : (columnNames state.schema).length = l.values.length := by
    rw [columnNames, List.length_map, hl]
  rw [combinedValues, List.zip_append hlength, merge, names_namedRow hl]
  refine congrArg (namedRow state.schema l ++ ·) ?_
  rw [namedRow, show columnNames right.schema = right.schema.columns.map (·.name) from rfl]
  generalize r.values = values at hr
  generalize right.schema.columns = columns at hr
  induction columns generalizing values with
  | nil =>
    rw [List.map_nil, List.zip_nil_right]
    rfl
  | cons c columns ih =>
    cases values with
    | nil => cases hr
    | cons v values =>
      have hrest := ih values (Nat.succ.inj hr)
      have hsome := isSome_findColumn state.schema c.name
      rw [List.map_cons, List.zip_cons_cons, List.zip_cons_cons]
      by_cases hmem : c.name ∈ columnNames state.schema
      · rw [List.filter_cons_of_neg (by simpa using hmem), List.filter_cons_of_neg (by simpa using hmem),
          List.filterMap_cons_none (by rw [if_pos ⟨htype, hsome.mpr hmem⟩])]
        exact hrest
      · rw [List.filter_cons_of_pos (by simpa using hmem), List.filter_cons_of_pos (by simpa using hmem),
          List.filterMap_cons_some (by rw [if_neg fun h => hmem (hsome.mp h.2)])]
        exact congrArg (_ :: ·) hrest

end Pair

/-! ## Columns under the same names -/

/-- The same columns under the same names, as far as a value of them is concerned. -/
def SameColumns (a b : List (String × Column)) : Prop :=
  List.Forall₂ (fun p q => p.1 = q.1 ∧ SameKind p.2 q.2) a b

theorem SameColumns.refl (a : List (String × Column)) : SameColumns a a :=
  List.forall₂_same.mpr fun p _ => ⟨rfl, .refl p.2⟩

theorem SameKind.trans {a b c : Column} (h : SameKind a b) (h' : SameKind b c) : SameKind a c where
  type := h'.type.trans h.type
  nullable := h'.nullable.trans h.nullable
  maxSize := h'.maxSize.trans h.maxSize
  format htype := by
    obtain ⟨hprecision, hscale⟩ := h.format htype
    obtain ⟨hprecision', hscale'⟩ := h'.format (h.type.trans htype)
    exact ⟨hprecision'.trans hprecision, hscale'.trans hscale⟩

theorem SameColumns.trans {a b c : List (String × Column)} (h : SameColumns a b)
    (h' : SameColumns b c) : SameColumns a c := by
  unfold SameColumns at *
  induction h generalizing c with
  | nil =>
    cases h'
    exact .nil
  | cons hp _ ih =>
    cases h' with
    | cons hp' hrest => exact .cons ⟨hp.1.trans hp'.1, hp.2.trans hp'.2⟩ (ih hrest)

/-- The columns of a natural join are the merged ones. -/
theorem sameColumns_added {join : QueryJoin} {current right : Schema} {added : List Column}
    (htype : join.type = .natural)
    (hadded : joinColumnsForRightSide current right join.type = some added) :
    SameColumns (merge (header current) (header right))
      ((current.columns ++ added).map fun c => (c.name, c)) := by
  rw [joinColumnsForRightSide_eq] at hadded
  rw [merge, names_header, header, header, List.map_append, ← Option.some.inj hadded,
    List.filter_map]
  refine List.rel_append (SameColumns.refl _) ?_
  -- the columns under names that the left side does not have
  have hfst := @addedColumns_fst_natural (columnNames current) _ right.columnsValid.2.2.2
    (columnNames current) fun _ _ => Iff.rfl
  have hfree : (right.columns.filter ((fun p : String × Column => decide (p.1 ∉ columnNames current)) ∘
      fun c => (c.name, c))) = (addedColumns join.type (columnNames current) right.columns).map (·.1) := by
    rw [htype, hfst]
    rfl
  rw [hfree, List.map_map, List.map_map, List.forall₂_map_left_iff, List.forall₂_map_right_iff]
  refine List.forall₂_same.mpr fun c hc => ⟨?_, sameKind_renamedColumn c.1 c.2⟩
  show c.1.name = (renamedColumn c.1 c.2).name
  rw [name_renamedColumn, addedColumns_natural htype _ _ c hc]

/-! ## The chain -/

/-- What the loop carries when it has come to some tables. -/
structure NaturalState (ts : List JoinedTable) (state : JoinState) : Prop where
  columns : SameColumns (mergedHeader ts) (header state.schema)
  rows : state.rows.map (namedRow state.schema) =
    (ts.map JoinedTable.namedRows).foldl (NamedRows.join sameValue) [[]]
  fits : state.Fits

theorem mergedHeader_append (ts : List JoinedTable) (t : JoinedTable) :
    mergedHeader (ts ++ [t]) = merge (mergedHeader ts) (header t.schema) := by
  rw [mergedHeader, mergeAll, List.map_append, List.foldl_append]
  rfl

section Chain

variable {texts : ValueTexts} {command : String} {tables : String → Option JoinedTable}
  {ts : List JoinedTable} {t : JoinedTable} {state : JoinState} {join : QueryJoin}

theorem naturalState_first {tableName : String} (tableAlias : String)
    (h : tables tableName = some t) :
    NaturalState [t] (firstState (storedEnv texts command tables) tableName tableAlias t.schema) where
  columns := by
    rw [show mergedHeader [t] = merge [] (header t.schema) from rfl, merge_nil]
    exact SameColumns.refl _
  rows := by
    have hrows := @storedEnv_scanRows texts command tables _ _ h
    rw [List.map_cons, List.map_nil, List.foldl_cons, List.foldl_nil, join_nil]
    exact congrArg (List.map (namedRow t.schema)) hrows
  fits := fits_firstState h

/-- The rows of one natural join. -/
theorem joinRows_natural (hfits : state.Fits) (hjoin : JoinsNaturally tables join t)
    (addedColumns : List Column) :
    joinRows (storedEnv texts command tables) state join
        (rightTable (storedEnv texts command tables) join t.schema addedColumns) state.rows =
      .ok (state.rows.flatMap fun l =>
        (t.rows.filter fun r =>
          agrees sameValue (namedRow state.schema l) (namedRow t.schema r)).map
        (combinedRow state join
          (rightTable (storedEnv texts command tables) join t.schema addedColumns) l)) := by
  obtain ⟨htype, ht⟩ := hjoin
  let env := storedEnv texts command tables
  let right := rightTable env join t.schema addedColumns
  have hrows : right.rows = t.rows := @storedEnv_scanRows texts command tables _ _ ht
  have hcandidates : candidateRows env state join right = fun _ => t.rows := by
    funext l
    rw [candidateRows, htype, ← hrows]
    rfl
  have hpadded : paddedRow join right = fun _ => none := by
    funext l
    rw [paddedRow, htype]
    rfl
  have hincluded : ∀ l r, includesRow env state join right l r =
      .ok (naturalJoinMatches ⟨state.schema, state.aliases, l⟩ ⟨t.schema, right.aliases, r⟩) := by
    intro l r
    rw [includesRow, htype]
    rfl
  rw [joinRows_ok env state join right fun l _ r _ => by rw [pairFails, hincluded],
    hcandidates, hpadded, loop_pairs]
  refine congrArg Except.ok (List.flatMap_congr fun l hl => congrArg (List.map _) ?_)
  refine List.filter_congr fun r hr => ?_
  rw [pairMatches, hincluded]
  exact naturalJoinMatches_eq (hfits l hl) (length_values hr)

theorem NaturalState.joinStep (h : NaturalState ts state) (hjoin : JoinsNaturally tables join t)
    (hcount : (mergedHeader (ts ++ [t])).length ≤ 991) :
    ∃ state', joinStep (storedEnv texts command tables) state join = some (.ok state') ∧
      NaturalState (ts ++ [t]) state' := by
  let env := storedEnv texts command tables
  have hadded := joinColumnsForRightSide_eq state.schema t.schema join.type
  have hsame := SameColumns.trans (forall₂_merge h.columns (SameColumns.refl (header t.schema)))
    (sameColumns_added hjoin.type hadded)
  rw [← mergedHeader_append] at hsame
  -- there are as many columns as names
  have hlength := hsame.length_eq
  rw [List.length_map] at hlength
  obtain ⟨merged, hmerged⟩ := Option.isSome_iff_exists.mp
    (mergedJoinSchema_isSome hadded (hlength ▸ hcount))
  have hcolumns := columns_mergedJoinSchema hmerged
  have hright : env.loadSchema join.tableName = some t.schema := storedEnv_loadSchema hjoin.table
  have hstep := joinStep_added hright hadded
  rw [joinRows_natural h.fits hjoin, joinedState, hmerged] at hstep
  refine ⟨_, hstep, ?_, ?_, h.fits.joinStep hstep⟩
  · show SameColumns _ (header merged)
    rw [header, hcolumns]
    exact hsame
  · -- the rows of a pair merge as the pair does
    have hnames : columnNames merged = columnNames state.schema ++
        (columnNames t.schema).filter (· ∉ columnNames state.schema) := by
      have hadds := sameColumns_added hjoin.type hadded
      rw [← hcolumns] at hadds
      rw [← names_header merged, header, ← names_eq hadds, names_merge, names_header, names_header]
    rw [List.map_append, List.map_cons, List.map_nil, List.foldl_append, List.foldl_cons,
      List.foldl_nil, ← h.rows, NamedRows.join, List.flatMap_map, List.map_flatMap]
    refine List.flatMap_congr fun l hl => ?_
    rw [JoinedTable.namedRows, List.filter_map, List.map_map, List.map_map]
    refine List.map_congr_left fun r hr => ?_
    have hr : r ∈ t.rows := List.mem_of_mem_filter hr
    let right := rightTable env join t.schema
      ((addedColumns join.type (columnNames state.schema) t.schema.columns).map fun c =>
        renamedColumn c.1 c.2)
    show (columnNames merged).zip (combinedValues state join right l r) = _
    rw [hnames]
    exact @zip_combinedValues state join right hjoin.type l r (h.fits l hl) (length_values hr)

theorem NaturalState.joinAll {joins : List QueryJoin} {more : List JoinedTable}
    (hjoins : List.Forall₂ (JoinsNaturally tables) joins more) (h : NaturalState ts state)
    (hcount : (mergedHeader (ts ++ more)).length ≤ 991) :
    ∃ state', joinAll (storedEnv texts command tables) state joins = some (.ok state') ∧
      NaturalState (ts ++ more) state' := by
  induction hjoins generalizing ts state with
  | nil =>
    rw [List.append_nil]
    exact ⟨state, rfl, h⟩
  | @cons join t joins more hjoin _ ih =>
    rw [List.append_cons] at hcount ⊢
    -- the tables so far have no more names than all of them
    have hfewer : (mergedHeader (ts ++ [t])).length ≤ (mergedHeader (ts ++ [t] ++ more)).length := by
      rw [mergedHeader, mergedHeader, mergeAll, mergeAll, @List.map_append _ _ _ _ more,
        List.foldl_append]
      exact length_le_foldl_merge _ _
    obtain ⟨next, hstep, hnext⟩ := h.joinStep hjoin (Nat.le_trans hfewer hcount)
    obtain ⟨state', hrest, hstate'⟩ := ih hnext hcount
    refine ⟨state', ?_, hstate'⟩
    rw [ScratchDb.Select.joinAll, hstep]
    exact hrest

end Chain

/-! ## Values of rows -/

/-- The values of a row belong to the columns of its table. -/
theorem validIn_namedRow {t : JoinedTable} {row : TableRow} (hrow : row ∈ t.rows) :
    List.Forall₂ (fun p q => p.1 = q.1 ∧ ValidIn p.2 q.2) (namedRow t.schema row)
      (header t.schema) := by
  rw [namedRow, columnNames, header]
  have hvalid := t.valid row hrow
  generalize row.values = values at hvalid
  generalize t.schema.columns = columns at hvalid
  induction hvalid with
  | nil => exact .nil
  | cons hv _ ih => exact .cons ⟨rfl, hv⟩ ih

section Choices

variable {ts : List JoinedTable} {c : List (List (String × Value))}
  (h : c ∈ choices (ts.map JoinedTable.namedRows))

include h

theorem forall₂_choice : List.Forall₂ (fun named t => named ∈ t.namedRows) c ts :=
  List.forall₂_map_right_iff.mp (mem_choices.mp h)

/-- The values of a merged row belong to the merged columns. -/
theorem validIn_mergeAll :
    List.Forall₂ (fun p q => p.1 = q.1 ∧ ValidIn p.2 q.2) (mergeAll c) (mergedHeader ts) := by
  refine forall₂_mergeAll ?_
  rw [List.forall₂_map_right_iff]
  refine (forall₂_choice h).imp fun named t hnamed => ?_
  obtain ⟨row, hrow, rfl⟩ := List.mem_map.mp hnamed
  exact validIn_namedRow hrow

theorem exists_row {named : List (String × Value)} (hnamed : named ∈ c) :
    ∃ t ∈ ts, ∃ row ∈ t.rows, named = namedRow t.schema row := by
  have hforall := forall₂_choice h
  clear h
  induction hforall with
  | nil => cases hnamed
  | @cons head t c ts hhead _ ih =>
    rcases List.mem_cons.mp hnamed with rfl | hnamed
    · obtain ⟨row, hrow, heq⟩ := List.mem_map.mp hhead
      exact ⟨t, List.mem_cons_self, row, hrow, heq.symm⟩
    · obtain ⟨t', ht', hrow⟩ := ih hnamed
      exact ⟨t', List.mem_cons_of_mem t ht', hrow⟩

/-- `compare_values` decides whether values of one type are equal, and NULL equals NULL. -/
theorem decides_sameValue (htypes : SameTypes ts) : c.Pairwise (Decides sameValue) := by
  have hall : ∀ r ∈ c, ∀ s ∈ c, Decides sameValue r s := by
    intro r hr s hs k v w hv hw
    obtain ⟨t, ht, row, hrow, rfl⟩ := exists_row h hr
    obtain ⟨t', ht', row', hrow', rfl⟩ := exists_row h hs
    obtain ⟨column, hcolumn, hvalid⟩ := exists_lookup (validIn_namedRow hrow) hv
    obtain ⟨column', hcolumn', hvalid'⟩ := exists_lookup (validIn_namedRow hrow') hw
    obtain ⟨a, ha, heq⟩ := List.mem_map.mp (NamedRows.mem_of_lookup hcolumn)
    obtain ⟨b, hb, heq'⟩ := List.mem_map.mp (NamedRows.mem_of_lookup hcolumn')
    obtain ⟨hname, rfl⟩ := Prod.mk.inj heq
    obtain ⟨hname', rfl⟩ := Prod.mk.inj heq'
    refine sameValue_iff fun hnull hnull' => ?_
    rw [Value.type_eq_of_matchesColumn hnull hvalid.1,
      Value.type_eq_of_matchesColumn hnull' hvalid'.1]
    exact htypes t ht t' ht' a ha b hb (hname.trans hname'.symm)
  refine List.pairwise_iff_forall_sublist.mpr fun hsub => ?_
  exact hall _ (hsub.subset (by simp)) _ (hsub.subset (by simp))

theorem nodup_names {named : List (String × Value)} (hnamed : named ∈ c) : (names named).Nodup := by
  obtain ⟨t, -, row, hrow, rfl⟩ := exists_row h hnamed
  rw [names_namedRow (length_values hrow)]
  exact t.schema.columnsValid.2.2.2

end Choices

/-! ## The statement -/

theorem tableColumns_eq {schema : Schema} {columns : List (String × Column)}
    (h : SameColumns columns (header schema)) :
    tableColumns schema = columns.map fun p => ⟨p.1, Column.typeToString p.2.type⟩ := by
  rw [SameColumns, header, List.forall₂_map_right_iff] at h
  rw [tableColumns]
  generalize schema.columns = merged at h
  induction h with
  | nil => rfl
  | cons hp _ ih => rw [List.map_cons, List.map_cons, ih, hp.1, hp.2.type]

theorem map_snd_namedRow {schema : Schema} {row : TableRow}
    (h : row.values.length = schema.columns.length) : (namedRow schema row).map (·.2) = row.values := by
  rw [namedRow, List.map_snd_zip]
  rw [columnNames, List.length_map, h]

/-- The texts of the rows that the loop carries. -/
theorem NaturalState.texts {ts : List JoinedTable} {state : JoinState} (h : NaturalState ts state)
    (numbers : LongDouble) :
    state.rows.map (tableRow (sourceTexts numbers) state.schema) =
      ((choices (ts.map JoinedTable.namedRows)).filter (joinable sameValue)).map fun c =>
        mergedTexts (sourceTexts numbers) ts (mergeAll c) := by
  have hrows := h.rows
  rw [foldl_join_nil] at hrows
  rw [← Function.comp_def (mergedTexts (sourceTexts numbers) ts), ← List.map_map, ← hrows,
    List.map_map]
  refine List.map_congr_left fun row hrow => ?_
  have hfits := h.fits row hrow
  have hkinds : List.Forall₂ SameKind ((mergedHeader ts).map (·.2)) state.schema.columns := by
    have hcolumns := h.columns
    rw [SameColumns, header, List.forall₂_map_right_iff] at hcolumns
    rw [List.forall₂_map_left_iff]
    exact hcolumns.imp fun _ _ hp => hp.2
  -- the row is one of the merged ones, so its values belong to the merged columns
  have hmem : namedRow state.schema row ∈
      ((choices (ts.map JoinedTable.namedRows)).filter (joinable sameValue)).map mergeAll :=
    hrows ▸ List.mem_map_of_mem hrow
  obtain ⟨c, hc, heq⟩ := List.mem_map.mp hmem
  have hvalid := validIn_mergeAll (List.mem_of_mem_filter hc)
  rw [heq] at hvalid
  have hvalues : List.Forall₂ ValidIn row.values ((mergedHeader ts).map (·.2)) := by
    rw [← map_snd_namedRow hfits, List.forall₂_map_left_iff, List.forall₂_map_right_iff]
    exact hvalid.imp fun _ _ hp => hp.2
  rw [tableRow_eq_zipWith _ _ hfits, zipWith_formatValue numbers hkinds hvalues,
    Function.comp_apply, mergedTexts, map_snd_namedRow hfits]

/-- A chain of NATURAL JOINs returns the natural join of its tables: the names of all columns in the
order of their first table, and a row for each choice of rows that agree on the names they share.
Where columns of one name have one type, to agree is to hold the same values. -/
theorem executeJoin_natural (numbers : LongDouble) (command : String)
    (tables : String → Option JoinedTable) (tableName tableAlias : String) (joins : List QueryJoin)
    (first : JoinedTable) (more : List JoinedTable) (hfirst : tables tableName = some first)
    (hjoins : List.Forall₂ (JoinsNaturally tables) joins more)
    (hcount : (mergedHeader (first :: more)).length ≤ 991) :
    (∃ r, executeJoin (storedEnv (sourceTexts numbers) command tables) tableName tableAlias joins =
        some r ∧ r.isOk = true ∧
      r.columns = (mergedHeader (first :: more)).map
        (fun p => ⟨p.1, Column.typeToString p.2.type⟩) ∧
      r.rows = ((choices ((first :: more).map JoinedTable.namedRows)).filter
        (joinable sameValue)).map fun c =>
          mergedTexts (sourceTexts numbers) (first :: more) (mergeAll c)) ∧
    (SameTypes (first :: more) → ∀ c ∈ choices ((first :: more).map JoinedTable.namedRows),
      (joinable sameValue c = true ↔ c.Pairwise SharedEqual)) := by
  constructor
  · obtain ⟨state, hall, hstate⟩ := NaturalState.joinAll hjoins
      (@naturalState_first (sourceTexts numbers) command tables first tableName tableAlias hfirst)
      hcount
    have hjoin := executeJoin_eq tableAlias
      (@storedEnv_loadSchema (sourceTexts numbers) command tables _ _ hfirst) joins
    rw [hall] at hjoin
    refine ⟨_, hjoin, ?_, ?_, ?_⟩
    · exact (sameData_setJoinColumnLookup _ _).isOk
    · rw [(sameData_setJoinColumnLookup _ _).columns]
      exact tableColumns_eq hstate.columns
    · rw [(sameData_setJoinColumnLookup _ _).rows]
      exact hstate.texts numbers
  · intro htypes c hc
    exact joinable_iff (fun named hnamed => nodup_names hc hnamed) (decides_sameValue hc htypes)

/-! ## Orders and their customers -/

def twoColumns (tableName x y : String) : SchemaParts where
  tableName := tableName
  columns := [⟨x, .integer, true, 8, 0, 0⟩, ⟨y, .integer, true, 8, 0, 0⟩]
  constraints := []
  indexes := []
  storageMode := .disk

/-- A small number, or NULL. -/
def smallValue : Option (Fin 100) → Value
  | some n => .integer n.val
  | none => .null

def twoValues (slot : Nat) (a b : Option (Fin 100)) : TableRow :=
  ⟨⟨1, slot⟩, [smallValue a, smallValue b]⟩

theorem validIn_smallValue (n : Option (Fin 100)) (name : String) :
    ValidIn (smallValue n) ⟨name, .integer, true, 8, 0, 0⟩ := by
  cases n with
  | none => exact ⟨rfl, trivial⟩
  | some n =>
    refine ⟨rfl, ?_⟩
    show -2 ^ 63 ≤ (n.val : Int) ∧ (n.val : Int) < 2 ^ 63
    omega

theorem twoValues_valid (slot : Nat) (a b : Option (Fin 100)) (tableName x y : String) :
    List.Forall₂ ValidIn (twoValues slot a b).values (twoColumns tableName x y).columns :=
  .cons (validIn_smallValue a x) (.cons (validIn_smallValue b y) .nil)

theorem distinctIds_twoValues (a b a' b' a'' b'' : Option (Fin 100)) :
    ([twoValues 0 a b, twoValues 1 a' b', twoValues 2 a'' b''].map (·.recordId)).Nodup := by
  show [RecordId.mk 1 0, RecordId.mk 1 1, RecordId.mk 1 2].Nodup
  decide

/-- Orders 1 and 2 of customers 7 and 8, and order 3 of nobody. -/
def orders : JoinedTable where
  schema := ⟨twoColumns "orders" "id" "customer", by decide, by decide, by decide, by decide⟩
  rows := [twoValues 0 (some 1) (some 7), twoValues 1 (some 2) (some 8), twoValues 2 (some 3) none]
  find := EquatedColumns.noneFound
  valid := by
    intro row hrow
    simp only [List.mem_cons, List.not_mem_nil, or_false] at hrow
    rcases hrow with rfl | rfl | rfl
    · exact twoValues_valid 0 (some 1) (some 7) "orders" "id" "customer"
    · exact twoValues_valid 1 (some 2) (some 8) "orders" "id" "customer"
    · exact twoValues_valid 2 (some 3) none "orders" "id" "customer"
  distinctIds := distinctIds_twoValues _ _ _ _ _ _
  foundOnce := EquatedColumns.noneFound_nodup

/-- Customer 7 in the cities 4 and 5, and nobody in city 6. -/
def customers : JoinedTable where
  schema := ⟨twoColumns "customers" "customer" "city", by decide, by decide, by decide, by decide⟩
  rows := [twoValues 0 (some 7) (some 4), twoValues 1 none (some 6), twoValues 2 (some 7) (some 5)]
  find := EquatedColumns.noneFound
  valid := by
    intro row hrow
    simp only [List.mem_cons, List.not_mem_nil, or_false] at hrow
    rcases hrow with rfl | rfl | rfl
    · exact twoValues_valid 0 (some 7) (some 4) "customers" "customer" "city"
    · exact twoValues_valid 1 none (some 6) "customers" "customer" "city"
    · exact twoValues_valid 2 (some 7) (some 5) "customers" "customer" "city"
  distinctIds := distinctIds_twoValues _ _ _ _ _ _
  foundOnce := EquatedColumns.noneFound_nodup

def shopTables (name : String) : Option JoinedTable :=
  if name = "orders" then some orders else if name = "customers" then some customers else none

def naturalCustomers : QueryJoin where
  type := .natural
  tableName := "customers"
  tableAlias := ""
  condition := none

/-- The order of nobody joins with the city of nobody. -/
theorem executeJoin_natural_orders :
    ∃ r, executeJoin (storedEnv (sourceTexts integerTexts.numbers) "" shopTables) "orders" ""
        [naturalCustomers] = some r ∧
      r.columns.map (·.name) = ["id", "customer", "city"] ∧
      r.rows = [["1", "7", "4"], ["1", "7", "5"], ["3", "NULL", "6"]] := by
  have hjoins : List.Forall₂ (JoinsNaturally shopTables) [naturalCustomers] [customers] :=
    .cons ⟨rfl, rfl⟩ .nil
  obtain ⟨⟨r, hr, -, hcolumns, hrows⟩, -⟩ := executeJoin_natural integerTexts.numbers "" shopTables
    "orders" "" [naturalCustomers] orders [customers] rfl hjoins (by decide)
  refine ⟨r, hr, ?_, ?_⟩
  · rw [hcolumns]
    decide
  · rw [hrows]
    decide

end ScratchDb.Select
