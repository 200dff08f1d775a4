import ScratchDb.Select.ColumnLookups
import ScratchDb.Select.MergedNames
import ScratchDb.Select.OuterJoins

/-!
# Columns behind an alias

In a chain of joins, `build_join_alias_map` of `src/query/query_executor.cpp`
says for each turn which merged name stands for a column of a table, and
`set_join_column_lookup` turns the names into places. The invariant of the chain
ties the columns of the tables, the merged columns and the values of each row
together, place by place.
-/

namespace ScratchDb.Select

/-! ## The tables of a chain -/

/-- A table of a chain of joins under its alias; `outer` where a LEFT JOIN may pad it. -/
structure Source where
  tableAlias : String
  table : JoinedTable
  outer : Bool

def Source.columns (s : Source) : List Column := s.table.schema.columns

/-- The columns of the tables, each behind the alias of its table. -/
def origins (sources : List Source) : List (String × Column) :=
  sources.flatMap fun s => s.columns.map fun c => (s.tableAlias, c)

/-- A row of the table, or none where the table is padded. -/
def IsComponent (s : Source) : Option TableRow → Prop
  | some row => row ∈ s.table.rows
  | none => s.outer = true

def Source.values (s : Source) : Option TableRow → List Value
  | some row => row.values
  | none => s.columns.map fun _ => .null

/-- The values of one row for each table. -/
def componentValues (sources : List Source) (components : List (Option TableRow)) : List Value :=
  (sources.zipWith Source.values components).flatten

/-- The value of the column at a place of the table. -/
def componentValue (component : Option TableRow) (j : Nat) : Value :=
  match component with
  | some row => row.values[j]?.getD .null
  | none => .null

section Chain

variable (tables : String → Option JoinedTable)

/-- The table that a CROSS, INNER or LEFT JOIN adds. -/
structure JoinsSource (join : QueryJoin) (s : Source) : Prop where
  tableAlias : s.tableAlias = rightAlias join
  table : tables join.tableName = some s.table
  type : join.type = .cross ∨ join.type = .inner ∨ join.type = .left
  outer : s.outer = decide (join.type = .left)

/-- The tables of a statement. -/
structure ChainOf (tableName tableAlias : String) (joins : List QueryJoin) (sources : List Source) :
    Prop where
  tables : ∃ first more, sources = first :: more ∧
    first.tableAlias = leftAlias tableName tableAlias ∧ tables tableName = some first.table ∧
    first.outer = false ∧ List.Forall₂ (JoinsSource tables) joins more

end Chain

/-- The aliases of the tables are names, and distinct. -/
structure DistinctAliases (sources : List Source) : Prop where
  names : ∀ s ∈ sources, Column.isValidName s.tableAlias = true
  nodup : (sources.map (·.tableAlias)).Nodup

/-! ## The invariant of the chain -/

/-- What the loop carries for the tables it has come to. -/
structure Carried (sources : List Source) (state : JoinState) : Prop where
  columns : List.Forall₂
    (fun o c => SameKind o.2 c ∧ state.aliases.lookup (dotted o.1 o.2.name) = some c.name)
    (origins sources) state.schema.columns
  keyed : state.aliases.Keyed
  known : ∀ key value, '.' ∈ key.toList → state.aliases.lookup key = some value →
    ∃ o ∈ origins sources, key = dotted o.1 o.2.name
  rows : ∀ row ∈ state.rows, ∃ components, List.Forall₂ IsComponent sources components ∧
    row.values = componentValues sources components

theorem origins_append (sources : List Source) (s : Source) :
    origins (sources ++ [s]) = origins sources ++ s.columns.map fun c => (s.tableAlias, c) := by
  simp [origins]

theorem mem_origins {sources : List Source} {o : String × Column} :
    o ∈ origins sources ↔ ∃ s ∈ sources, o.1 = s.tableAlias ∧ o.2 ∈ s.columns := by
  simp only [origins, List.mem_flatMap, List.mem_map]
  constructor
  · rintro ⟨s, hs, c, hc, rfl⟩
    exact ⟨s, hs, rfl, hc⟩
  · rintro ⟨s, hs, halias, hc⟩
    exact ⟨s, hs, o.2, hc, Prod.ext halias.symm rfl⟩

theorem componentValues_append {sources : List Source} {components : List (Option TableRow)}
    (h : List.Forall₂ IsComponent sources components) (s : Source) (component : Option TableRow) :
    componentValues (sources ++ [s]) (components ++ [component]) =
      componentValues sources components ++ s.values component := by
  rw [componentValues, List.zipWith_append h.length_eq, List.flatten_append]
  simp [componentValues]

theorem ne_empty_of_isValidName {name : String} (h : Column.isValidName name = true) : name ≠ "" := by
  rintro rfl
  revert h
  decide

theorem dotless_column (schema : Schema) {c : Column} (hc : c ∈ schema.columns) :
    '.' ∉ c.name.toList := dot_not_mem (validName (schema.columnsValid.2.2.1 c hc))

section Steps

variable {texts : ValueTexts} {command : String} {tables : String → Option JoinedTable}
  {state state' : JoinState} {sources : List Source} {join : QueryJoin} {s : Source}

/-- The first table. -/
theorem carried_firstState {tableName tableAlias : String} (hs : tables tableName = some s.table)
    (halias : s.tableAlias = leftAlias tableName tableAlias)
    (hvalid : Column.isValidName s.tableAlias = true) :
    Carried [s] (firstState (storedEnv texts command tables) tableName tableAlias s.table.schema) := by
  have haliases : (firstState (storedEnv texts command tables) tableName tableAlias
      s.table.schema).aliases =
      addAliases s.tableAlias (s.table.schema.columns.map fun c => (c.name, c.name)) [] := by
    rw [halias, ← buildAliasMap_eq]
    rfl
  have hne := ne_empty_of_isValidName hvalid
  have hdots : ∀ e ∈ s.table.schema.columns.map (fun c => (c.name, c.name)),
      '.' ∉ e.1.toList := by
    intro e he
    obtain ⟨c, hc, rfl⟩ := List.mem_map.mp he
    exact dotless_column s.table.schema hc
  have hnodup : ((s.table.schema.columns.map fun c => (c.name, c.name)).map (·.1)).Nodup := by
    rw [List.map_map]
    exact s.table.schema.columnsValid.2.2.2
  have horigins : origins [s] = s.table.schema.columns.map fun c => (s.tableAlias, c) :=
    List.flatMap_singleton _ s
  refine ⟨?_, ?_, ?_, fun row hrow => ⟨[some row], .cons ?_ .nil, ?_⟩⟩
  · rw [horigins, haliases]
    refine List.forall₂_map_left_iff.mpr (List.forall₂_same.mpr fun c hc => ⟨.refl c, ?_⟩)
    exact lookup_addAliases hne hdots (dot_not_mem hvalid) hnodup
      (List.mem_map.mpr ⟨c, hc, rfl⟩)
  · rw [haliases]
    exact keyed_addAliases List.nodup_nil
  · intro key value hdot hlookup
    rw [haliases] at hlookup
    rcases lookup_addAliases_cases hne hdots hdot hlookup with hold | ⟨e, he, hkey⟩
    · cases hold
    · obtain ⟨c, hc, rfl⟩ := List.mem_map.mp he
      exact ⟨(s.tableAlias, c), mem_origins.mpr ⟨s, List.mem_singleton_self s, rfl, hc⟩, hkey⟩
  · have hrows : (firstState (storedEnv texts command tables) tableName tableAlias
        s.table.schema).rows = s.table.rows := @storedEnv_scanRows texts command tables _ _ hs
    rw [hrows] at hrow
    exact hrow
  · simp [componentValues, Source.values]

/-- One more join. -/
theorem Carried.joinStep (h : Carried sources state) (hs : JoinsSource tables join s)
    (haliases : DistinctAliases (sources ++ [s]))
    (hstep : joinStep (storedEnv texts command tables) state join = some (.ok state')) :
    Carried (sources ++ [s]) state' := by
  obtain ⟨right, added, joined, hright, hadded, hjoined, hmerged, hstate⟩ := joinStep_stored hstep
  cases hright.symm.trans hs.table
  have hne : join.type ≠ .natural := by
    rcases hs.type with htype | htype | htype <;> rw [htype] <;> decide
  have hvalid := haliases.names s (List.mem_append_right _ (List.mem_singleton_self s))
  have haliasNe := ne_empty_of_isValidName hvalid
  have hfst := addedColumns_fst_of_ne hne (columnNames state.schema) s.table.schema.columns
  have haddedEq := hadded
  rw [joinColumnsForRightSide_eq] at haddedEq
  have haddedEq := (Option.some.inj haddedEq).symm
  let entries := (addedColumns join.type (columnNames state.schema) s.table.schema.columns).map
    fun c => (c.1.name, c.2)
  have haliasMap : state'.aliases = addAliases s.tableAlias entries state.aliases := by
    rw [hstate, hs.tableAlias, buildJoinAliasMap_eq]
  have hmem : ∀ c ∈ addedColumns join.type (columnNames state.schema) s.table.schema.columns,
      c.1 ∈ s.table.schema.columns := fun c hc => (mem_addedColumns hc).1
  have hdots : ∀ e ∈ entries, '.' ∉ e.1.toList := by
    intro e he
    obtain ⟨c, hc, rfl⟩ := List.mem_map.mp he
    exact dotless_column s.table.schema (hmem c hc)
  have hnodup : (entries.map (·.1)).Nodup := by
    have hnames : entries.map (·.1) = s.table.schema.columns.map (·.name) := by
      rw [← hfst, List.map_map, List.map_map]
      rfl
    rw [hnames]
    exact s.table.schema.columnsValid.2.2.2
  have hcolumns : state'.schema.columns = state.schema.columns ++ added :=
    columns_mergedJoinSchema hmerged
  -- the alias is none of the earlier ones
  have hnew : ∀ o ∈ origins sources, ∀ e ∈ entries,
      dotted o.1 o.2.name ≠ dotted s.tableAlias e.1 := by
    intro o ho e _ heq
    obtain ⟨s', hs', halias, -⟩ := mem_origins.mp ho
    have hvalid' := haliases.names s' (List.mem_append_left _ hs')
    have hsame := (dotted_inj (halias ▸ dot_not_mem hvalid') (dot_not_mem hvalid) heq).1
    have hdisjoint := List.nodup_append.mp (List.map_append ▸ haliases.nodup)
    refine hdisjoint.2.2 s'.tableAlias (List.mem_map.mpr ⟨s', hs', rfl⟩) s.tableAlias
      (List.mem_map.mpr ⟨s, List.mem_singleton_self s, rfl⟩) ?_
    rw [← halias, hsame]
  refine ⟨?_, ?_, ?_, fun row hrow => ?_⟩
  · rw [origins_append, hcolumns, haliasMap]
    refine List.rel_append (List.forall₂_iff_zip.mpr ⟨h.columns.length_eq, fun hzip => ?_⟩) ?_
    · obtain ⟨hkind, hlookup⟩ := (List.forall₂_iff_zip.mp h.columns).2 hzip
      refine ⟨hkind, ?_⟩
      rw [← hlookup]
      exact lookup_addAliases_of_ne haliasNe hdots (dot_mem_dotted _ _)
        (hnew _ (List.of_mem_zip hzip).1)
    · have hsource : s.columns.map (fun c => (s.tableAlias, c)) =
          (addedColumns join.type (columnNames state.schema) s.table.schema.columns).map fun c =>
            (s.tableAlias, c.1) := by
        rw [Source.columns]
        conv_lhs => rw [← hfst, List.map_map]
        rfl
      rw [hsource, haddedEq]
      refine List.forall₂_map_left_iff.mpr (List.forall₂_map_right_iff.mpr
        (List.forall₂_same.mpr fun c hc => ⟨sameKind_renamedColumn c.1 c.2, ?_⟩))
      rw [name_renamedColumn]
      exact lookup_addAliases haliasNe hdots (dot_not_mem hvalid) hnodup
        (List.mem_map.mpr ⟨c, hc, rfl⟩)
  · rw [haliasMap]
    exact keyed_addAliases h.keyed
  · intro key value hdot hlookup
    rw [haliasMap] at hlookup
    rw [origins_append]
    rcases lookup_addAliases_cases haliasNe hdots hdot hlookup with hold | ⟨e, he, hkey⟩
    · obtain ⟨o, ho, hkey⟩ := h.known key value hdot hold
      exact ⟨o, List.mem_append_left _ ho, hkey⟩
    · obtain ⟨c, hc, rfl⟩ := List.mem_map.mp he
      exact ⟨(s.tableAlias, c.1), List.mem_append_right _ (List.mem_map.mpr ⟨c.1, hmem c hc, rfl⟩),
        hkey⟩
  · rw [hstate] at hrow
    obtain ⟨l, hl, ⟨r, hr, -, rfl⟩ | hpadded⟩ := mem_joinRows hjoined hrow
    · obtain ⟨components, hcomponents, hvalues⟩ := h.rows l hl
      have hmemRow := candidateRows_mem hs.table hr
      refine ⟨components ++ [some r], List.rel_append hcomponents (.cons hmemRow .nil), ?_⟩
      rw [componentValues_append hcomponents, ← hvalues]
      exact combinedValues_of_ne hne l (length_values hmemRow)
    · obtain ⟨components, hcomponents, hvalues⟩ := h.rows l hl
      rw [paddedRow] at hpadded
      split at hpadded
      · rename_i hleft
        cases hpadded
        refine ⟨components ++ [none], List.rel_append hcomponents (.cons ?_ .nil), ?_⟩
        · show s.outer = true
          rw [hs.outer, hleft]
          rfl
        · rw [componentValues_append hcomponents, ← hvalues]
          exact congrArg (l.values ++ ·) (nulls_addedColumns hne hadded)
      · cases hpadded

theorem Carried.joinAll {joins : List QueryJoin} {more : List Source} (h : Carried sources state)
    (hjoins : List.Forall₂ (JoinsSource tables) joins more)
    (haliases : DistinctAliases (sources ++ more))
    (hall : joinAll (storedEnv texts command tables) state joins = some (.ok state')) :
    Carried (sources ++ more) state' := by
  induction hjoins generalizing sources state with
  | nil =>
    cases hall
    rw [List.append_nil]
    exact h
  | @cons join s joins more hs _ ih =>
    have hassoc : sources ++ s :: more = (sources ++ [s]) ++ more := by simp
    rw [hassoc] at haliases ⊢
    have hfirst : DistinctAliases (sources ++ [s]) :=
      ⟨fun s' hs' => haliases.names s' (List.mem_append_left more hs'),
        haliases.nodup.sublist ((List.sublist_append_left _ more).map _)⟩
    rw [ScratchDb.Select.joinAll] at hall
    split at hall
    · rename_i next hstep
      exact ih (h.joinStep hs hfirst hstep) haliases hall
    · rename_i hother
      exact absurd hall (hother _)

/-- A turn of the loop throws only where there are too many columns. -/
theorem Carried.joinStep_none (h : Carried sources state) (hs : JoinsSource tables join s)
    (hstep : ScratchDb.Select.joinStep (storedEnv texts command tables) state join = none) :
    991 < (origins (sources ++ [s])).length := by
  have hne : join.type ≠ .natural := by
    rcases hs.type with htype | htype | htype <;> rw [htype] <;> decide
  have hschema : (storedEnv texts command tables).loadSchema join.tableName = some s.table.schema :=
    storedEnv_loadSchema hs.table
  have hadded := joinColumnsForRightSide_eq state.schema s.table.schema join.type
  rw [joinStep_added hschema hadded] at hstep
  unfold joinedState at hstep
  split at hstep
  · cases hstep
  · by_contra hcount
    have hlength : ((addedColumns join.type (columnNames state.schema) s.table.schema.columns).map
        fun c => renamedColumn c.1 c.2).length = s.columns.length := by
      rw [List.length_map, ← List.length_map (fun c : Column × String => c.1),
        addedColumns_fst_of_ne hne]
      rfl
    have hsome := mergedJoinSchema_isSome hadded (by
      rw [List.length_append, hlength, ← h.columns.length_eq]
      rw [origins_append, List.length_append, List.length_map] at hcount
      omega)
    rw [Option.map_eq_none_iff.mp hstep] at hsome
    cases hsome

theorem Carried.joinAll_none {joins : List QueryJoin} {more : List Source}
    (h : Carried sources state) (hjoins : List.Forall₂ (JoinsSource tables) joins more)
    (haliases : DistinctAliases (sources ++ more))
    (hall : ScratchDb.Select.joinAll (storedEnv texts command tables) state joins = none) :
    991 < (origins (sources ++ more)).length := by
  induction hjoins generalizing sources state with
  | nil => cases hall
  | @cons join s joins more hs _ ih =>
    have hassoc : sources ++ s :: more = (sources ++ [s]) ++ more := by simp
    rw [hassoc] at haliases ⊢
    have hfirst : DistinctAliases (sources ++ [s]) :=
      ⟨fun s' hs' => haliases.names s' (List.mem_append_left more hs'),
        haliases.nodup.sublist ((List.sublist_append_left _ more).map _)⟩
    rw [ScratchDb.Select.joinAll] at hall
    cases hstep : ScratchDb.Select.joinStep (storedEnv texts command tables) state join with
    | none =>
      refine Nat.lt_of_lt_of_le (h.joinStep_none hs hstep) ?_
      have happend : origins ((sources ++ [s]) ++ more) = origins (sources ++ [s]) ++ origins more :=
        List.flatMap_append
      rw [happend, List.length_append]
      exact Nat.le_add_right _ _
    | some next =>
      rw [hstep] at hall
      cases next with
      | error e => cases hall
      | ok next => exact ih (h.joinStep hs hfirst hstep) haliases hall

end Steps

/-! ## Places in the result -/

theorem mem_qualifiedSources {columns : List QueryResultColumn} {aliases : AliasMap}
    {e : String × String × Nat} :
    e ∈ qualifiedSources columns aliases ↔
      ∃ value qualifier name, (e.1, value) ∈ aliases ∧
        DelimitedText.cutAt '.' e.1.toList = some (qualifier, name) ∧ e.2.1 = String.ofList name ∧
        columns.findIdx? (fun c => c.name = value) = some e.2.2 := by
  rw [qualifiedSources, List.mem_filterMap]
  constructor
  · rintro ⟨p, hp, he⟩
    split at he
    · cases he
    · rename_i qualifier name hcut
      obtain ⟨i, hi, rfl⟩ := Option.map_eq_some_iff.mp he
      exact ⟨p.2, qualifier, name, hp, hcut, rfl, hi⟩
  · rintro ⟨value, qualifier, name, hp, hcut, hname, hi⟩
    refine ⟨(e.1, value), hp, ?_⟩
    dsimp only
    rw [hcut]
    dsimp only
    rw [hi, Option.map_some, ← hname]

/-- The lookups of other names stay. -/
theorem lookupColumn_addColumnLookup_of_ne {r : QueryResult} {key : String} {index : Nat}
    {tableAlias columnName : String} (h : qualifiedName tableAlias columnName ≠ key) :
    lookupColumn (r.addColumnLookup key index) tableAlias columnName =
      lookupColumn r tableAlias columnName := by
  rw [lookupColumn_eq, lookupColumn_eq]
  unfold QueryResult.addColumnLookup
  split
  · split
    · rfl
    · simp [List.mem_cons, h]
  · have hlookup : (r.columnPositions ++ [(key, index)]).lookup (qualifiedName tableAlias columnName) =
        r.columnPositions.lookup (qualifiedName tableAlias columnName) := by
      rw [List.lookup_append, List.lookup_cons, beq_eq_false_iff_ne.mpr h]
      simp
    rw [hlookup]

theorem lookupColumn_setUnqualified_of_ne {sources : List (String × String × Nat)} {r : QueryResult}
    {name tableAlias columnName : String} (h : qualifiedName tableAlias columnName ≠ name) :
    lookupColumn (setUnqualified sources r name) tableAlias columnName =
      lookupColumn r tableAlias columnName := by
  unfold setUnqualified
  split
  · rfl
  · split
    · exact lookupColumn_addColumnLookup_of_ne h
    · rw [lookupColumn_eq, lookupColumn_eq]
      simp [List.mem_cons, h]

theorem lookupColumn_setUnqualified {sources : List (String × String × Nat)} {names : List String}
    {r : QueryResult} {tableAlias columnName : String}
    (h : ∀ name ∈ names, qualifiedName tableAlias columnName ≠ name) :
    lookupColumn (names.foldl (setUnqualified sources) r) tableAlias columnName =
      lookupColumn r tableAlias columnName := by
  induction names generalizing r with
  | nil => rfl
  | cons name names ih =>
    rw [List.foldl_cons, ih fun n hn => h n (List.mem_cons_of_mem name hn)]
    exact lookupColumn_setUnqualified_of_ne (h name List.mem_cons_self)

/-- A merged name is found at its place. -/
theorem findIdx?_tableColumns (schema : Schema) {i : Nat} (hi : i < schema.columns.length) {k : Nat} :
    (tableColumns schema).findIdx? (fun c => c.name = schema.columns[i].name) = some k ↔ k = i := by
  have hnodup := schema.columnsValid.2.2.2
  have hname : ∀ {j : Nat} (hj : j < (tableColumns schema).length),
      (tableColumns schema)[j].name = schema.columns[i].name → j = i := by
    intro j hj heq
    have hj' : j < (schema.columns.map (·.name)).length := by simpa [tableColumns] using hj
    have hi' : i < (schema.columns.map (·.name)).length := by simpa using hi
    have hsame : (schema.columns.map (·.name))[j] = (schema.columns.map (·.name))[i] := by
      simpa [tableColumns] using heq
    exact (List.Nodup.getElem_inj_iff hnodup).mp hsame
  rw [List.findIdx?_eq_some_iff_getElem]
  constructor
  · rintro ⟨hk, hkname, -⟩
    exact hname hk (by simpa using hkname)
  · rintro rfl
    have hk : k < (tableColumns schema).length := by simpa [tableColumns] using hi
    refine ⟨hk, by simp [tableColumns], fun j hj => ?_⟩
    by_contra hne
    have heq := hname (Nat.lt_trans hj hk) (by simpa using hne)
    omega

section Lookups

variable {sources : List Source} {state : JoinState} (h : Carried sources state)
  (haliases : DistinctAliases sources)

include h haliases

/-- A name with a dot in the alias map ends in a name without one. -/
theorem Carried.dotless_name {key value : String} {qualifier name : List Char}
    (hmem : (key, value) ∈ state.aliases)
    (hcut : DelimitedText.cutAt '.' key.toList = some (qualifier, name)) : '.' ∉ name := by
  have hdot : '.' ∈ key.toList := by
    rw [DelimitedText.eq_of_cutAt hcut]
    simp
  obtain ⟨o, ho, rfl⟩ := h.known key value hdot (h.keyed.lookup hmem)
  obtain ⟨s, hs, halias, hcolumn⟩ := mem_origins.mp ho
  rw [cutAt_dotted (halias ▸ dot_not_mem (haliases.names s hs))] at hcut
  cases hcut
  exact dotless_column s.table.schema hcolumn

/-- The name of a column behind an alias is found at the place of the column. -/
theorem Carried.lookup {r : QueryResult} (hcolumns : r.columns = tableColumns state.schema)
    (hpositions : r.columnPositions = []) (hambiguous : r.ambiguousColumns = [])
    {i : Nat} {o : String × Column} (ho : (origins sources)[i]? = some o) :
    lookupColumn (setJoinColumnLookup r state.aliases) o.1 o.2.name = .found i := by
  obtain ⟨s, hs, halias, hcolumn⟩ := mem_origins.mp (List.mem_of_getElem? ho)
  have hvalid : Column.isValidName o.1 = true := halias ▸ haliases.names s hs
  have hname : qualifiedName o.1 o.2.name = dotted o.1 o.2.name :=
    if_neg (ne_empty_of_isValidName hvalid)
  have hlength := h.columns.length_eq
  obtain ⟨hlt, hget⟩ := List.getElem?_eq_some_iff.mp ho
  have hlt' : i < state.schema.columns.length := hlength ▸ hlt
  have hplace := (List.forall₂_iff_get.mp h.columns).2 i hlt hlt'
  simp only [List.get_eq_getElem, hget] at hplace
  -- the place of the merged name
  have hindex : ∀ k, r.columns.findIdx? (fun c => c.name = state.schema.columns[i].name) = some k ↔
      k = i := by
    intro k
    rw [hcolumns]
    exact findIdx?_tableColumns state.schema hlt'
  have hregistered := (registered_setBasicColumnLookup hpositions hambiguous).addAll
    ((qualifiedSources r.columns state.aliases).map fun e => (e.1, e.2.2))
  rw [List.foldl_map] at hregistered
  rw [setJoinColumnLookup, lookupColumn_setUnqualified]
  · refine hregistered.lookup_found.mpr ⟨?_, fun k hk => ?_⟩
    · refine List.mem_append_right _ (List.mem_map.mpr ⟨(dotted o.1 o.2.name, o.2.name, i), ?_, ?_⟩)
      · exact mem_qualifiedSources.mpr ⟨_, _, _, mem_of_lookup hplace.2,
          cutAt_dotted (dot_not_mem hvalid) o.2.name, String.ofList_toList.symm, (hindex i).mpr rfl⟩
      · rw [hname]
    · rw [hname] at hk
      rcases List.mem_append.mp hk with hk | hk
      · -- the name of a merged column has no dot
        obtain ⟨c, hc, hdotted⟩ := mem_basicEntries.mp hk
        rw [hcolumns, tableColumns, List.getElem?_map, Option.map_eq_some_iff] at hc
        obtain ⟨column, hcolumn, rfl⟩ := hc
        refine absurd (dot_mem_dotted o.1 o.2.name) ?_
        rw [← hdotted]
        exact dotless_column state.schema (List.mem_of_getElem? hcolumn)
      · obtain ⟨e, he, heq⟩ := List.mem_map.mp hk
        obtain ⟨value, qualifier, name, hmem, -, -, hfound⟩ := mem_qualifiedSources.mp he
        obtain ⟨hkey, rfl⟩ := Prod.mk.inj heq
        rw [hkey] at hmem
        cases (h.keyed.lookup hmem).symm.trans hplace.2
        exact (hindex _).mp hfound
  · intro name hmem heq
    rw [List.mem_dedup, List.mem_map] at hmem
    obtain ⟨e, he, rfl⟩ := hmem
    obtain ⟨value, qualifier, name, hmem, hcut, hlast, -⟩ := mem_qualifiedSources.mp he
    refine h.dotless_name haliases hmem hcut ?_
    have hdot := dot_mem_dotted o.1 o.2.name
    rw [← hname, heq, hlast, String.toList_ofList] at hdot
    exact hdot

end Lookups

/-! ## Rows of the result -/

theorem cell_tableRow {texts : ValueTexts} {schema : Schema} {row : TableRow} {i : Nat} {c : Column}
    {v : Value} (hc : schema.columns[i]? = some c) (hv : row.values[i]? = some v) :
    cell (tableRow texts schema row) i = texts.formatValue c v := by
  rw [cell, tableRow, List.getElem?_map, List.getElem?_zipIdx, hv]
  simp [hc]

/-- The place of a column is that of its value. -/
theorem exists_place {sources : List Source} {components : List (Option TableRow)}
    (h : List.Forall₂ IsComponent sources components) {s : Source} {component : Option TableRow}
    (hmem : (s, component) ∈ sources.zip components) {j : Nat} {column : Column}
    (hcolumn : s.columns[j]? = some column) :
    ∃ i : Nat, (origins sources)[i]? = some (s.tableAlias, column) ∧
      (componentValues sources components)[i]? = some (componentValue component j) := by
  induction h with
  | nil => cases hmem
  | @cons s' component' sources components hcomponent hrest ih =>
    have horigins : origins (s' :: sources) =
        (s'.columns.map fun c => (s'.tableAlias, c)) ++ origins sources := List.flatMap_cons
    have hvalues : componentValues (s' :: sources) (component' :: components) =
        s'.values component' ++ componentValues sources components := rfl
    have hlength : (s'.values component').length = s'.columns.length := by
      cases component' with
      | none => exact List.length_map _
      | some row => exact length_values hcomponent
    rw [horigins, hvalues]
    rcases List.mem_cons.mp hmem with heq | hmem
    · cases heq
      obtain ⟨hlt, hget⟩ := List.getElem?_eq_some_iff.mp hcolumn
      refine ⟨j, ?_, ?_⟩
      · rw [List.getElem?_append_left (by simpa using hlt), List.getElem?_map, hcolumn]
        rfl
      · rw [List.getElem?_append_left (by rw [hlength]; exact hlt)]
        cases component with
        | none =>
          rw [Source.values, List.getElem?_map, hcolumn]
          rfl
        | some row =>
          have hlt' : j < row.values.length := by
            rw [length_values hcomponent]
            exact hlt
          rw [Source.values, componentValue, List.getElem?_eq_getElem hlt', Option.getD_some]
    · obtain ⟨i, horigin, hvalue⟩ := ih hmem
      refine ⟨s'.columns.length + i, ?_, ?_⟩
      · rw [List.getElem?_append_right (by simp), List.length_map, Nat.add_sub_cancel_left]
        exact horigin
      · rw [List.getElem?_append_right (by omega), hlength, Nat.add_sub_cancel_left]
        exact hvalue

/-- A row of the result is made of a row for each table, or of NULLs for a padded one, and each
column behind an alias reads the value that the row for its table has in that column. -/
structure ShowsComponents (texts : ValueTexts) (r : QueryResult) (sources : List Source)
    (row : List String) (components : List (Option TableRow)) : Prop where
  areComponents : List.Forall₂ IsComponent sources components
  reads : ∀ (s : Source) (component : Option TableRow), (s, component) ∈ sources.zip components →
    ∀ (j : Nat) (column : Column), s.columns[j]? = some column →
      ∃ i c, resultColumnIndex r { tableAlias := s.tableAlias, columnName := column.name } = .found i ∧
        SameKind column c ∧ cell row i = texts.formatValue c (componentValue component j)

/-- The result of a chain shows what the loop has carried. -/
theorem Carried.shows {texts : ValueTexts} {sources : List Source} {state : JoinState}
    (h : Carried sources state) (haliases : DistinctAliases sources) {r : QueryResult}
    (hcolumns : r.columns = tableColumns state.schema)
    (hrows : r.rows = state.rows.map (tableRow texts state.schema)) (hpositions : r.columnPositions = [])
    (hambiguous : r.ambiguousColumns = []) :
    ((setJoinColumnLookup r state.aliases).columns.map (·.name)).Nodup ∧
      (setJoinColumnLookup r state.aliases).columns.length = (origins sources).length ∧
        ∀ row ∈ (setJoinColumnLookup r state.aliases).rows,
          ∃ components, ShowsComponents texts (setJoinColumnLookup r state.aliases) sources row
            components := by
  have hsame := sameData_setJoinColumnLookup r state.aliases
  refine ⟨?_, ?_, fun row hrow => ?_⟩
  · rw [hsame.columns, hcolumns, tableColumns, List.map_map]
    exact state.schema.columnsValid.2.2.2
  · rw [hsame.columns, hcolumns, tableColumns, List.length_map]
    exact h.columns.length_eq.symm
  · rw [hsame.rows, hrows] at hrow
    obtain ⟨stored, hstored, rfl⟩ := List.mem_map.mp hrow
    obtain ⟨components, hcomponents, hvalues⟩ := h.rows stored hstored
    refine ⟨components, hcomponents, fun s component hmem j column hcolumn => ?_⟩
    obtain ⟨i, horigin, hvalue⟩ := exists_place hcomponents hmem hcolumn
    obtain ⟨hlt, hget⟩ := List.getElem?_eq_some_iff.mp horigin
    have hlt' : i < state.schema.columns.length := h.columns.length_eq ▸ hlt
    have hplace := (List.forall₂_iff_get.mp h.columns).2 i hlt hlt'
    simp only [List.get_eq_getElem, hget] at hplace
    refine ⟨i, state.schema.columns[i], ?_, hplace.1, ?_⟩
    · exact h.lookup haliases hcolumns hpositions hambiguous horigin
    · refine cell_tableRow (List.getElem?_eq_getElem hlt') ?_
      rw [hvalues]
      exact hvalue

/-- In a chain of joins the merged columns have distinct names, and fail to make a schema only if
they are too many. Each column behind an alias reads the value of the column of that table. -/
theorem qualified_names_survive (texts : ValueTexts) (command : String)
    (tables : String → Option JoinedTable) (tableName tableAlias : String) (joins : List QueryJoin)
    (sources : List Source) (hchain : ChainOf tables tableName tableAlias joins sources)
    (haliases : DistinctAliases sources) :
    (executeJoin (storedEnv texts command tables) tableName tableAlias joins = none →
      991 < (origins sources).length) ∧
    ∀ r, executeJoin (storedEnv texts command tables) tableName tableAlias joins = some r →
      r.isOk = true →
        (r.columns.map (·.name)).Nodup ∧ r.columns.length = (origins sources).length ∧
          ∀ row ∈ r.rows, ∃ components, ShowsComponents texts r sources row components := by
  obtain ⟨first, more, rfl, halias, htable, houter, hjoins⟩ := hchain.tables
  have hfirst : Carried [first]
      (firstState (storedEnv texts command tables) tableName tableAlias first.table.schema) :=
    carried_firstState htable halias (haliases.names first List.mem_cons_self)
  have hschema : (storedEnv texts command tables).loadSchema tableName = some first.table.schema :=
    storedEnv_loadSchema htable
  rw [executeJoin_eq tableAlias hschema]
  constructor
  · intro hnone
    unfold joinedResult at hnone
    split at hnone
    · rename_i hall
      exact hfirst.joinAll_none hjoins haliases hall
    · cases hnone
    · cases hnone
  · intro r hr hok
    unfold joinedResult at hr
    split at hr
    · cases hr
    · cases hr
      cases hok
    · rename_i state hall
      cases hr
      have hcarried := hfirst.joinAll hjoins haliases hall
      exact hcarried.shows haliases rfl rfl rfl rfl

/-- `FROM a CROSS JOIN a AS b`: both tables have a column `x`. -/
def crossTwice : QueryJoin where
  type := .cross
  tableName := "a"
  tableAlias := "b"
  condition := none

def twiceSources : List Source := [⟨"a", leftNumbers, false⟩, ⟨"b", leftNumbers, false⟩]

theorem qualified_names_survive_twice :
    (executeJoin (storedEnv integerTexts "" numbersTables) "a" "" [crossTwice] = none → 991 < 2) ∧
    ∀ r, executeJoin (storedEnv integerTexts "" numbersTables) "a" "" [crossTwice] = some r →
      r.isOk = true → (r.columns.map (·.name)).Nodup ∧ r.columns.length = 2 ∧
        ∀ row ∈ r.rows, ∃ components, ShowsComponents integerTexts r twiceSources row components :=
  qualified_names_survive integerTexts "" numbersTables "a" "" [crossTwice] twiceSources
    ⟨_, _, rfl, rfl, rfl, rfl, .cons ⟨rfl, rfl, .inl rfl, rfl⟩ .nil⟩ ⟨by decide, by decide⟩

end ScratchDb.Select
