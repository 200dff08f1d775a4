import ScratchDb.Select.HavingFilters
import ScratchDb.Select.JoinedRows
import ScratchDb.Select.Ordering
import ScratchDb.Select.SurvivingErrors

/-!
# Rectangular results

The stages of `src/query/query_executor.cpp` build the columns and the rows of a
result apart. Every stage gives each row one cell for each column, but for
`aggregate_result`, which has no cell for the `COUNT` of a column.
-/

namespace ScratchDb.Select

open OpenRecursion

/-- Each row has a cell for each column, and the lookups find columns. -/
structure Rectangular (r : QueryResult) : Prop where
  rows : ∀ row ∈ r.rows, row.length = r.columns.length
  positions : ∀ p ∈ r.columnPositions, p.2 < r.columns.length

theorem rectangular_failed (e : QueryError) : Rectangular (failed e) where
  rows row hrow := by cases hrow
  positions p hp := by cases hp

/-- A column that is found has a cell in every row. -/
theorem Rectangular.index_lt {r : QueryResult} (h : Rectangular r) {tableAlias columnName : String}
    {i : Nat} (hfound : lookupColumn r tableAlias columnName = .found i) :
    ∀ row ∈ r.rows, i < row.length := by
  intro row hrow
  rw [h.rows row hrow]
  rw [lookupColumn_eq] at hfound
  split at hfound
  · cases hfound
  · split at hfound
    · rename_i hlookup
      cases hfound
      obtain ⟨before, after, hpositions, -⟩ := List.lookup_eq_some_iff.mp hlookup
      refine h.positions (qualifiedName tableAlias columnName, i) ?_
      rw [hpositions]
      exact List.mem_append_right _ List.mem_cons_self
    · cases hfound

/-! ## Lookups -/

theorem positions_addColumnLookup {r : QueryResult} {name : String} {i : Nat} {p : String × Nat}
    (h : p ∈ (r.addColumnLookup name i).columnPositions) : p ∈ r.columnPositions ∨ p = (name, i) := by
  unfold QueryResult.addColumnLookup at h
  split at h
  · split at h
    · exact .inl h
    · exact .inl h
  · exact (List.mem_append.mp h).imp_right List.mem_singleton.mp

/-- A column that is there may be added to the lookups. -/
theorem Rectangular.addColumnLookup {r : QueryResult} (h : Rectangular r) (name : String) {i : Nat}
    (hi : i < r.columns.length) : Rectangular (r.addColumnLookup name i) := by
  obtain ⟨hcolumns, hrows, -, -⟩ := sameData_addColumnLookup r name i
  refine ⟨fun row hrow => ?_, fun p hp => ?_⟩
  · rw [hrows] at hrow
    rw [hcolumns]
    exact h.rows row hrow
  · rw [hcolumns]
    rcases positions_addColumnLookup hp with hp | rfl
    · exact h.positions p hp
    · exact hi

/-- So may any number of them. -/
theorem Rectangular.foldl {α : Type} {step : QueryResult → α → QueryResult} {P : α → Prop}
    {columns : List QueryResultColumn}
    (hstep : ∀ r a, P a → Rectangular r → r.columns = columns →
      Rectangular (step r a) ∧ (step r a).columns = columns)
    {as : List α} (has : ∀ a ∈ as, P a) {r : QueryResult} (h : Rectangular r)
    (hcolumns : r.columns = columns) :
    Rectangular (as.foldl step r) ∧ (as.foldl step r).columns = columns := by
  induction as generalizing r with
  | nil => exact ⟨h, hcolumns⟩
  | cons a as ih =>
    obtain ⟨hnext, hsame⟩ := hstep r a (has a List.mem_cons_self) h hcolumns
    exact ih (fun b hb => has b (List.mem_cons_of_mem a hb)) hnext hsame

theorem snd_lt_of_mem_zipIdx {α : Type} {as : List α} {p : α × Nat} (h : p ∈ as.zipIdx) :
    p.2 < as.length := by
  have hget := List.mem_zipIdx_iff_getElem?.mp h
  exact (List.getElem?_eq_some_iff.mp hget).1

theorem Rectangular.addColumns {r : QueryResult} (h : Rectangular r)
    (name : QueryResultColumn × Nat → String) :
    Rectangular (r.columns.zipIdx.foldl (fun r c => r.addColumnLookup (name c) c.2) r) ∧
      (r.columns.zipIdx.foldl (fun r c => r.addColumnLookup (name c) c.2) r).columns = r.columns := by
  refine Rectangular.foldl (P := fun c => c.2 < r.columns.length) ?_
    (fun c hc => snd_lt_of_mem_zipIdx hc) h rfl
  intro r' c hc hr' hcolumns
  refine ⟨hr'.addColumnLookup (name c) (by rw [hcolumns]; exact hc), ?_⟩
  rw [(sameData_addColumnLookup r' (name c) c.2).columns, hcolumns]

theorem Rectangular.setBasicColumnLookup {r : QueryResult} (h : Rectangular r) :
    Rectangular r.setBasicColumnLookup := (h.addColumns fun c => c.1.name).1

theorem Rectangular.setTableColumnLookup {r : QueryResult} (h : Rectangular r)
    (tableName tableAlias : String) : Rectangular (r.setTableColumnLookup tableName tableAlias) := by
  obtain ⟨hbasic, hcolumns⟩ := h.addColumns fun c => c.1.name
  have hnext := (hbasic.addColumns fun c =>
    (if tableAlias = "" then tableName else tableAlias) ++ "." ++ c.1.name).1
  rw [hcolumns] at hnext
  exact hnext

theorem qualifiedSources_lt {columns : List QueryResultColumn} {aliases : AliasMap}
    {s : String × String × Nat} (h : s ∈ qualifiedSources columns aliases) :
    s.2.2 < columns.length := by
  obtain ⟨p, -, hp⟩ := List.mem_filterMap.mp h
  split at hp
  · cases hp
  · obtain ⟨i, hi, rfl⟩ := Option.map_eq_some_iff.mp hp
    exact (List.findIdx?_eq_some_iff_getElem.mp hi).1

theorem Rectangular.setUnqualified {r : QueryResult} (h : Rectangular r)
    {sources : List (String × String × Nat)} (hsources : ∀ s ∈ sources, s.2.2 < r.columns.length)
    (name : String) :
    Rectangular (setUnqualified sources r name) ∧ (setUnqualified sources r name).columns = r.columns := by
  unfold ScratchDb.Select.setUnqualified
  split
  · exact ⟨h, rfl⟩
  · rename_i i indexes hindexes
    split
    · have hmem : i ∈ (sources.filter fun s => s.2.1 = name).map (·.2.2) := by
        rw [hindexes]
        exact List.mem_cons_self
      obtain ⟨s, hs, rfl⟩ := List.mem_map.mp hmem
      exact ⟨h.addColumnLookup name (hsources s (List.mem_filter.mp hs).1),
        (sameData_addColumnLookup r name s.2.2).columns⟩
    · exact ⟨⟨h.rows, h.positions⟩, rfl⟩

theorem Rectangular.setJoinColumnLookup {r : QueryResult} (h : Rectangular r) (aliases : AliasMap) :
    Rectangular (setJoinColumnLookup r aliases) := by
  obtain ⟨hbasic, hcolumns⟩ := h.addColumns fun c => c.1.name
  have hlt : ∀ s ∈ qualifiedSources r.columns aliases, s.2.2 < r.columns.length :=
    fun s hs => qualifiedSources_lt hs
  have hqualified : Rectangular ((qualifiedSources r.columns aliases).foldl
        (fun r s => r.addColumnLookup s.1 s.2.2) r.setBasicColumnLookup) ∧
      ((qualifiedSources r.columns aliases).foldl
        (fun r s => r.addColumnLookup s.1 s.2.2) r.setBasicColumnLookup).columns = r.columns :=
    Rectangular.foldl (P := fun s => s.2.2 < r.columns.length)
      (fun r' s hs hr' hsame => ⟨hr'.addColumnLookup s.1 (by rw [hsame]; exact hs),
        (sameData_addColumnLookup r' s.1 s.2.2).columns.trans hsame⟩) hlt hbasic hcolumns
  refine (Rectangular.foldl (P := fun _ => True) ?_ (fun _ _ => trivial) hqualified.1
    hqualified.2).1
  intro r' name _ hr' hsame
  obtain ⟨hnext, hnextColumns⟩ := @Rectangular.setUnqualified r' hr'
    (qualifiedSources r.columns aliases) (by rw [hsame]; exact hlt) name
  exact ⟨hnext, hnextColumns.trans hsame⟩

/-! ## Row sources and set operations -/

theorem Rectangular.renamed {r : QueryResult} (h : Rectangular r) (tableName tableAlias : String) :
    Rectangular (renamed r tableName tableAlias) :=
  Rectangular.setTableColumnLookup (r := { r with columnPositions := [], ambiguousColumns := [] })
    ⟨h.rows, fun p hp => (by cases hp)⟩ tableName tableAlias

/-- Some of the rows with the same columns. -/
theorem Rectangular.of_subset {r r' : QueryResult} (h : Rectangular r) (hcolumns : r'.columns = r.columns)
    (hpositions : r'.columnPositions = r.columnPositions) (hrows : r'.rows ⊆ r.rows) :
    Rectangular r' where
  rows row hrow := by
    rw [hcolumns]
    exact h.rows row (hrows hrow)
  positions p hp := by
    rw [hpositions] at hp
    rw [hcolumns]
    exact h.positions p hp

theorem distinctRows_subset (seen : List String) (rows : List (List String)) :
    distinctRows seen rows ⊆ rows := by
  induction rows generalizing seen with
  | nil => exact fun _ h => h
  | cons row rows ih =>
    rw [distinctRows]
    split
    · exact fun r hr => List.mem_cons_of_mem row (ih seen hr)
    · intro r hr
      rcases List.mem_cons.mp hr with rfl | hr
      · exact List.mem_cons_self
      · exact List.mem_cons_of_mem row (ih _ hr)

theorem commonRows_subset (quantifier : QuerySetQuantifier) (keys seen : List String)
    (rows : List (List String)) : commonRows quantifier keys seen rows ⊆ rows := by
  induction rows generalizing keys seen with
  | nil => exact fun _ h => h
  | cons row rows ih =>
    have hskip : ∀ keys seen, commonRows quantifier keys seen rows ⊆ row :: rows :=
      fun keys seen r hr => List.mem_cons_of_mem row (ih keys seen hr)
    have hkeep : ∀ keys seen, row :: commonRows quantifier keys seen rows ⊆ row :: rows :=
      fun keys seen => List.cons_subset_cons row (ih keys seen)
    cases quantifier with
    | all =>
      rw [commonRows]
      split
      · exact hkeep _ _
      · exact hskip _ _
    | some =>
      rw [commonRows]
      split
      · split
        · exact hskip _ _
        · exact hkeep _ _
      · exact hskip _ _

theorem length_of_compatible {left right : QueryResult} (h : compatibleColumns left right = true) :
    left.columns.length = right.columns.length := by
  have htypes : left.columns.map (·.type) = right.columns.map (·.type) := by
    simpa [compatibleColumns] using h
  simpa using congrArg List.length htypes

theorem Rectangular.union {left right : QueryResult} (quantifier : QuerySetQuantifier)
    (hleft : Rectangular left) (hright : Rectangular right)
    (hcompatible : compatibleColumns left right = true) :
    Rectangular (unionResults left right quantifier) where
  rows row hrow := by
    have hmem : row ∈ left.rows ++ right.rows := by
      cases quantifier with
      | all => exact hrow
      | some => exact distinctRows_subset [] _ hrow
    show row.length = left.columns.length
    rcases List.mem_append.mp hmem with h | h
    · exact hleft.rows row h
    · rw [length_of_compatible hcompatible]
      exact hright.rows row h
  positions := hleft.positions

theorem Rectangular.intersect {left : QueryResult} (right : QueryResult)
    (quantifier : QuerySetQuantifier) (hleft : Rectangular left) :
    Rectangular (intersectResults left right quantifier) :=
  hleft.of_subset rfl rfl (commonRows_subset quantifier _ _ _)

/-! ## Stored tables -/

section Stored

variable {texts : ValueTexts} {command : String} {tables : String → Option JoinedTable}

theorem rectangular_table {schema : Schema} {rows : List TableRow} {n : Nat}
    (h : ∀ row ∈ rows, row.values.length = schema.columns.length) :
    Rectangular { columns := tableColumns schema, rows := rows.map (tableRow texts schema),
                  rowCount := n } where
  rows row hrow := by
    obtain ⟨r, hr, rfl⟩ := List.mem_map.mp hrow
    rw [length_tableRow, h r hr, tableColumns, List.length_map]
  positions p hp := by cases hp

theorem rectangular_selectAll (tableName tableAlias : String) :
    Rectangular (selectAll (storedEnv texts command tables) tableName tableAlias) := by
  cases htable : tables tableName with
  | none =>
    have hnone : (storedEnv texts command tables).loadSchema tableName = none := by
      show (tables tableName).map (·.schema) = none
      rw [htable]
      rfl
    rw [selectAll, hnone]
    exact rectangular_failed _
  | some t =>
    rw [selectAll, @storedEnv_loadSchema texts command tables _ _ htable]
    dsimp only
    split
    · refine (rectangular_table fun row hrow => length_values (t := t) ?_).setTableColumnLookup _ _
      rw [← @storedEnv_scanRows texts command tables _ _ htable]
      exact hrow
    · exact rectangular_failed _

theorem rectangular_executeJoin {tableName tableAlias : String} {joins : List QueryJoin}
    {r : QueryResult} (h : executeJoin (storedEnv texts command tables) tableName tableAlias joins =
      some r) : Rectangular r := by
  cases htable : tables tableName with
  | none =>
    have hnone : (storedEnv texts command tables).loadSchema tableName = none := by
      show (tables tableName).map (·.schema) = none
      rw [htable]
      rfl
    rw [executeJoin, hnone] at h
    cases h
    exact rectangular_failed _
  | some t =>
    rw [executeJoin_eq tableAlias (@storedEnv_loadSchema texts command tables _ _ htable)] at h
    cases hstate : joinAll (storedEnv texts command tables)
        (firstState (storedEnv texts command tables) tableName tableAlias t.schema) joins with
    | none =>
      rw [hstate] at h
      cases h
    | some state =>
      rw [hstate] at h
      cases state with
      | error e =>
        cases h
        exact rectangular_failed e
      | ok state =>
        cases h
        have hfits := JoinState.Fits.joinAll (fits_firstState htable) hstate
        exact (rectangular_table hfits).setJoinColumnLookup _

theorem rectangular_keptByQueries :
    KeptByQueries (storedEnv texts command tables) Rectangular where
  failed := rectangular_failed
  selectAll := rectangular_selectAll
  joined := rectangular_executeJoin
  renamed tableName tableAlias h := h.renamed tableName tableAlias
  kept h hsub := h.of_subset rfl rfl hsub.subset
  union quantifier hleft hright := hleft.union quantifier hright
  intersect quantifier hleft _ _ := hleft.intersect _ quantifier

end Stored

/-! ## Aggregates -/

section Aggregates

variable {texts : ValueTexts} {source r : QueryResult} {s : SelectedColumn}
  {selected : List SelectedColumn} {q : ParsedQuery}

/-- `COUNT` of a column over at least one row. -/
def CountsColumn (source : QueryResult) (s : SelectedColumn) : Prop :=
  s.aggregate = .count ∧ s.columnName ≠ "*" ∧ source.rows ≠ []

/-- The `COUNT` of a column has no cell; every other aggregate has one. -/
theorem aggregateColumn_cells {c : QueryResultColumn × List String}
    (h : aggregateColumn texts source s = some (.ok c)) :
    CountsColumn source s ∧ c.2 = [] ∨ ¬ CountsColumn source s ∧ ∃ text, c.2 = [text] := by
  unfold aggregateColumn at h
  split at h
  · cases h
  · rename_i hnone
    split at h
    · rename_i hcount
      cases h
      exact .inr ⟨fun hcounts => hcounts.2.1 hcount.2, _, rfl⟩
    · rename_i hcount
      split at h
      · cases h
      · cases h
      · rename_i i _
        simp only [Option.bind_eq_bind, Option.bind_eq_some_iff] at h
        obtain ⟨cells, hcells, h⟩ := h
        cases cells with
        | error e => cases h
        | ok cells =>
          cases h
          show CountsColumn source s ∧ cells = [] ∨ ¬ CountsColumn source s ∧ ∃ text, cells = [text]
          unfold aggregateCell at hcells
          split at hcells
          · rename_i hempty
            cases hcells
            exact .inr ⟨fun hcounts => hcounts.2.2 (List.map_eq_nil_iff.mp hempty), _, rfl⟩
          · rename_i first rest hcons
            have hrows : source.rows ≠ [] := by
              intro hnil
              rw [hnil] at hcons
              cases hcons
            split at hcells
            · rename_i hbest
              simp only [Option.bind_eq_bind, Option.bind_eq_some_iff] at hcells
              obtain ⟨best, -, hcells⟩ := hcells
              cases hcells
              refine .inr ⟨fun hcounts => ?_, _, rfl⟩
              rw [hcounts.1] at hbest
              rcases hbest with h | h <;> cases h
            · rename_i hbest
              split at hcells
              · cases hcells
              · simp only [Option.bind_eq_bind, Option.bind_eq_some_iff] at hcells
                obtain ⟨sum, -, hcells⟩ := hcells
                split at hcells
                · rename_i hfunction
                  cases hcells
                  refine .inr ⟨fun hcounts => ?_, _, rfl⟩
                  rw [hcounts.1] at hfunction
                  cases hfunction
                · rename_i hfunction
                  cases hcells
                  refine .inr ⟨fun hcounts => ?_, _, rfl⟩
                  rw [hcounts.1] at hfunction
                  cases hfunction
                · rename_i hsum havg
                  cases hcells
                  have hfunction : s.aggregate = .count := by
                    cases haggregate : s.aggregate with
                    | none => exact absurd haggregate hnone
                    | max => exact absurd (.inl haggregate) hbest
                    | min => exact absurd (.inr haggregate) hbest
                    | avg => exact absurd haggregate havg
                    | sum => exact absurd haggregate hsum
                    | count => rfl
                  exact .inl ⟨⟨hfunction, fun hname => hcount ⟨hfunction, hname⟩, hrows⟩, rfl⟩

theorem aggregateColumns_ok {cs : List (QueryResultColumn × List String)}
    (h : aggregateColumns texts source selected = some (.ok cs)) :
    List.Forall₂ (fun s c => aggregateColumn texts source s = some (.ok c)) selected cs := by
  induction selected generalizing cs with
  | nil =>
    cases h
    exact .nil
  | cons s selected ih =>
    rw [aggregateColumns] at h
    simp only [Option.bind_eq_bind, Option.bind_eq_some_iff] at h
    obtain ⟨c, hcolumn, h⟩ := h
    split at h
    · cases h
    · simp only [Option.bind_eq_some_iff] at h
      obtain ⟨rest, hrest, h⟩ := h
      cases rest with
      | error e => cases h
      | ok rest =>
        cases h
        exact .cons hcolumn (ih hrest)

/-- The row has a cell for each column where no column is counted. -/
theorem length_aggregated {cs : List (QueryResultColumn × List String)}
    (h : List.Forall₂ (fun s c => aggregateColumn texts source s = some (.ok c)) selected cs) :
    (cs.flatMap (·.2)).length ≤ cs.length ∧
      ((cs.flatMap (·.2)).length = cs.length ↔ ∀ s ∈ selected, ¬ CountsColumn source s) := by
  induction h with
  | nil => exact ⟨Nat.le_refl 0, fun _ s hs => absurd hs List.not_mem_nil, fun _ => rfl⟩
  | cons hcolumn _ ih =>
    obtain ⟨hle, hiff⟩ := ih
    rw [List.flatMap_cons, List.length_append, List.length_cons, List.forall_mem_cons]
    rcases aggregateColumn_cells hcolumn with ⟨hcounts, hcells⟩ | ⟨hcounts, text, hcells⟩
    · rw [hcells, List.length_nil]
      refine ⟨by omega, fun heq => by omega, fun hnone => absurd hcounts hnone.1⟩
    · rw [hcells, List.length_singleton, ← hiff]
      refine ⟨by omega, fun heq => ⟨hcounts, by omega⟩, fun hnone => by omega⟩

/-- The result of `aggregate_result` is rectangular exactly where no column is counted. -/
theorem rectangular_aggregateResult (h : aggregateResult texts source selected = some r)
    (hok : r.isOk = true) : Rectangular r ↔ ∀ s ∈ selected, ¬ CountsColumn source s := by
  simp only [aggregateResult, Option.bind_eq_bind, Option.bind_eq_some_iff] at h
  obtain ⟨cs, hcs, h⟩ := h
  cases cs with
  | error e =>
    cases h
    cases hok
  | ok cs =>
    cases h
    rw [← (length_aggregated (aggregateColumns_ok hcs)).2]
    constructor
    · intro hrectangular
      have hrow := hrectangular.rows (cs.flatMap (·.2)) (by
        rw [(sameData_setBasicColumnLookup _).rows]
        exact List.mem_singleton.mpr rfl)
      rw [(sameData_setBasicColumnLookup _).columns, List.length_map] at hrow
      exact hrow
    · intro heq
      refine Rectangular.setBasicColumnLookup ⟨fun row hrow => ?_, fun p hp => (by cases hp)⟩
      rw [List.mem_singleton.mp hrow, List.length_map]
      exact heq

/-! ## The other stages -/

theorem rectangular_groupedResult (h : groupedResult texts source q = some r) : Rectangular r := by
  by_cases hok : r.isOk = true
  · obtain ⟨indexes, -, -, -, -, hbasic⟩ := groupedResult_ok h hok
    obtain ⟨hcolumns, hrows, -⟩ := groupedResult_eq h hok
    rw [hbasic]
    refine Rectangular.setBasicColumnLookup ⟨fun row hrow => ?_, fun p hp => (by cases hp)⟩
    rw [hrows] at hrow
    obtain ⟨tuple, -, rfl⟩ := List.mem_map.mp hrow
    rw [groupOutput, List.length_map, hcolumns, List.length_map]
  · obtain ⟨e, rfl⟩ := groupedResult_failed h (by simpa using hok)
    exact rectangular_failed e

theorem Rectangular.havingResult (h : Rectangular r) : Rectangular (havingResult texts r q) := by
  unfold ScratchDb.Select.havingResult
  split
  · exact h
  · split
    · exact rectangular_failed _
    · rename_i rows hkept
      exact h.of_subset rfl rfl (keptRows_sublist hkept).subset

theorem Rectangular.orderResult (hrectangular : Rectangular source)
    (h : orderResult texts source q = some r) : Rectangular r := by
  unfold ScratchDb.Select.orderResult at h
  split at h
  · cases h
    exact hrectangular
  · split at h
    · cases h
      exact rectangular_failed _
    · simp only [Option.bind_eq_bind, Option.bind_eq_some_iff] at h
      obtain ⟨rows, hrows, h⟩ := h
      cases h
      exact hrectangular.of_subset rfl rfl (perm_stableSort hrows).subset

theorem Rectangular.limitResult (h : Rectangular r) : Rectangular (limitResult r q) := by
  unfold ScratchDb.Select.limitResult
  split
  · exact h
  · exact h.of_subset rfl rfl (List.take_subset _ _)

theorem Rectangular.projectResult (h : Rectangular r) : Rectangular (projectResult r q) := by
  unfold ScratchDb.Select.projectResult
  split
  · exact h
  · split
    · exact rectangular_failed _
    · rename_i indexes hindexes
      refine Rectangular.setBasicColumnLookup ⟨fun row hrow => ?_, fun p hp => (by cases hp)⟩
      obtain ⟨row', -, rfl⟩ := List.mem_map.mp hrow
      rw [List.length_zipWith, List.length_zipWith]

theorem rectangular_finishSelect {command : String} (hrows : Rectangular source)
    (hcounts : ∀ s ∈ q.selectedColumns, ¬ CountsColumn source s)
    (h : finishSelect texts command q source = some r) : Rectangular r := by
  unfold finishSelect at h
  split at h
  · split at h
    · cases h
      exact rectangular_failed _
    · simp only [Option.bind_eq_bind, Option.bind_eq_some_iff] at h
      obtain ⟨grouped, hgrouped, ordered, hordered, h⟩ := h
      cases h
      exact ((rectangular_groupedResult hgrouped).havingResult.orderResult hordered).limitResult
  · split at h
    · simp only [Option.bind_eq_bind, Option.bind_eq_some_iff] at h
      obtain ⟨aggregated, haggregated, ordered, hordered, h⟩ := h
      cases h
      have hrectangular : Rectangular aggregated := by
        by_cases hok : aggregated.isOk = true
        · exact (rectangular_aggregateResult haggregated hok).mpr hcounts
        · obtain ⟨e, rfl⟩ := aggregateResult_failed haggregated (by simpa using hok)
          exact rectangular_failed e
      exact (hrectangular.havingResult.orderResult hordered).limitResult
    · split at h
      · cases h
        exact rectangular_failed _
      · simp only [Option.bind_eq_bind, Option.bind_eq_some_iff] at h
        obtain ⟨ordered, hordered, h⟩ := h
        have hrectangular := hrows.orderResult hordered
        split at h
        · cases h
          exact hrectangular
        · cases h
          exact hrectangular.projectResult.limitResult

/-! ## The aggregates of a query -/

variable (texts q) in
/-- Every result of `aggregate_result` for a query is rectangular. -/
def AggregatesRectangular (rows : QueryResult) : Prop :=
  if q.groupByColumns ≠ [] then
    ∀ tuple ∈ groupTuples rows q, ∀ s ∈ q.selectedColumns, s.aggregate ≠ .none → ∀ a,
      aggregateResult texts
        (groupOf rows (Grouping.members (groupTuple rows q.groupByColumns) rows.rows tuple)) [s] =
          some a → Rectangular a
  else selectedHasAggregate q = true → ∀ a, aggregateResult texts rows q.selectedColumns = some a →
    Rectangular a

/-- A group that has its cells has the aggregates of its columns. -/
theorem aggregateResult_of_groupCell {group : QueryResult} {text : String}
    (haggregate : s.aggregate ≠ .none) (h : groupCell texts group s = some (.ok text)) :
    ∃ a, aggregateResult texts group [s] = some a ∧ a.isOk = true := by
  rw [groupCell, if_neg haggregate] at h
  simp only [Option.bind_eq_bind, Option.bind_eq_some_iff] at h
  obtain ⟨a, ha, h⟩ := h
  split at h
  · cases h
  · rename_i hnone
    exact ⟨a, ha, by rw [QueryResult.isOk, hnone]; rfl⟩

theorem rectangular_of_not_counts {group a : QueryResult} (hcounts : ¬ CountsColumn group s)
    (h : aggregateResult texts group [s] = some a) : Rectangular a := by
  by_cases hok : a.isOk = true
  · refine (rectangular_aggregateResult h hok).mpr fun s' hs' => ?_
    rw [List.mem_singleton.mp hs']
    exact hcounts
  · obtain ⟨e, rfl⟩ := aggregateResult_failed h (by simpa using hok)
    exact rectangular_failed e

/-- A query whose stages succeed has rectangular aggregates where it counts no column. -/
theorem aggregatesRectangular_iff (h : StagesSucceed texts q source) :
    AggregatesRectangular texts q source ↔ ∀ s ∈ q.selectedColumns, ¬ CountsColumn source s := by
  unfold StagesSucceed at h
  unfold AggregatesRectangular
  split at h
  · rename_i hgroups
    obtain ⟨-, grouped, hgrouped, hok, -⟩ := h
    rw [if_pos hgroups]
    constructor
    · intro hall s hs hcounts
      -- the group of the first row has a row to count
      obtain ⟨row, rows, hrows⟩ := List.exists_cons_of_ne_nil hcounts.2.2
      have hmem : groupTuple source q.groupByColumns row ∈ groupTuples source q :=
        Grouping.mem_firstKeys.mpr ⟨row, by rw [hrows]; exact List.mem_cons_self, rfl⟩
      have haggregate : s.aggregate ≠ .none := by
        rw [hcounts.1]
        decide
      obtain ⟨text, htext⟩ := groupCell_of_grouped hgrouped hok hmem hs
      obtain ⟨a, ha, haok⟩ := aggregateResult_of_groupCell haggregate htext
      refine (rectangular_aggregateResult ha haok).mp (hall _ hmem s hs haggregate a ha) s
        (List.mem_singleton.mpr rfl) ⟨hcounts.1, hcounts.2.1, ?_⟩
      exact Grouping.members_ne_nil hmem
    · intro hnone tuple htuple s hs haggregate a ha
      refine rectangular_of_not_counts (fun hcounts => hnone s hs ⟨hcounts.1, hcounts.2.1, ?_⟩) ha
      intro hnil
      have hmembers := Grouping.members_ne_nil htuple
      rw [hnil] at hmembers
      exact hmembers rfl
  · rename_i hgroups
    rw [if_neg hgroups]
    split at h
    · rename_i haggregate
      obtain ⟨aggregated, haggregated, hok, -⟩ := h
      have hiff := rectangular_aggregateResult haggregated hok
      rw [← hiff]
      refine ⟨fun hall => hall haggregate aggregated haggregated, fun hrectangular _ a ha => ?_⟩
      cases haggregated.symm.trans ha
      exact hrectangular
    · rename_i haggregate
      refine ⟨fun _ s hs hcounts => haggregate ?_, fun _ htrue => absurd htrue haggregate⟩
      rw [selectedHasAggregate, List.any_eq_true]
      exact ⟨s, hs, by rw [hcounts.1]; rfl⟩

end Aggregates

/-! ## Runs -/

section Runs

variable (env : SelectEnv)

/-- A part of the query counts a column over rows. -/
def CountsInStep (chain : ParsedQuery × Option Outer → Run QueryResult)
    (call : ParsedQuery × Option Outer) : Prop :=
  ∃ p ∈ (preparedQuery call.1 call.2).parts, ∃ rows, ReachStages env chain p rows ∧
    ∃ s ∈ p.selectedColumns, CountsColumn rows s

open Classical in
/-- `chainStep` for calls that count no column. -/
noncomputable def countlessStep (chain : ParsedQuery × Option Outer → Run QueryResult)
    (call : ParsedQuery × Option Outer) : Run QueryResult :=
  if CountsInStep env chain call then .error .outOfFuel else chainStep env chain call

variable {env}

/-- A run that counts no column is the run of the query. -/
theorem countless_approx (fuel : Nat) (i : ParsedQuery × Option Outer) :
    Approx (iterate (countlessStep env) fuel i) (iterate (chainStep env) fuel i) := by
  induction fuel generalizing i with
  | zero => exact .inl rfl
  | succ fuel ih =>
    rw [iterate, iterate, countlessStep]
    split
    · exact .inl rfl
    · exact chainStep_mono _ _ ih i

/-- Every run without a step that counts a column returns rectangular results, and in a query whose
stages succeed the aggregates are rectangular exactly where no column is counted. -/
theorem results_rectangular (texts : ValueTexts) (command : String)
    (tables : String → Option JoinedTable) :
    (∀ fuel i r, iterate (countlessStep (storedEnv texts command tables)) fuel i = .ok r →
      executeSelectChain (storedEnv texts command tables) fuel i.1 i.2 = .ok r ∧ Rectangular r ∧
        ∀ tableAlias columnName column, lookupColumn r tableAlias columnName = .found column →
          ∀ row ∈ r.rows, column < row.length) ∧
    (∀ q rows, StagesSucceed texts q rows →
      (AggregatesRectangular texts q rows ↔ ∀ s ∈ q.selectedColumns, ¬ CountsColumn rows s)) := by
  refine ⟨fun fuel i r h => ?_, fun q rows => aggregatesRectangular_iff⟩
  have hrectangular : Rectangular r := by
    refine iterate_yields (fun f hf i => ?_) fuel i r h
    rw [countlessStep]
    split
    · intro r hr
      cases hr
    · rename_i hcountless
      refine @chainStep_keeps _ _ _ rectangular_keptByQueries hf i.1 i.2
        fun p hp rows r hreach hrows hfinish => ?_
      refine rectangular_finishSelect hrows (fun s hs hcounts => ?_) hfinish
      exact hcountless ⟨p, hp, rows, hreach, s, hs, hcounts⟩
  refine ⟨?_, hrectangular, fun tableAlias columnName column => hrectangular.index_lt⟩
  rcases countless_approx fuel i with hstop | hsame
  · rw [h] at hstop
    cases hstop
  · exact hsame.symm.trans h

/-- `SELECT COUNT(x) FROM a`. -/
def countOfColumn : ParsedQuery :=
  { ParsedQuery.allOf "a" with
    selectAll := false
    selectedColumns := [{ columnName := "x", aggregate := .count }] }

/-- The result has a column and a row without cells. -/
theorem count_of_column_short :
    ¬ ∀ (texts : ValueTexts) (command : String) (tables : String → Option JoinedTable) (fuel : Nat)
        (q : ParsedQuery) (r : QueryResult),
        executeSelectChain (storedEnv texts command tables) fuel q none = .ok r → r.isOk = true →
          Rectangular r := by
  intro h
  have hrectangular := h integerTexts "" numbersTables 1 countOfColumn
    (QueryResult.setBasicColumnLookup
      { columns := [⟨"count", "integer"⟩], rows := [[]], rowCount := 1 }) (by decide) (by decide)
  exact absurd (hrectangular.rows [] (by decide)) (by decide)

end Runs

end ScratchDb.Select
