import ScratchDb.Select.ColumnLookups
import ScratchDb.Select.Groups

/-!
# HAVING

`having_result` of `src/query/query_executor.cpp` looks for an aggregate among
the columns of the grouped result by the name of its function. The name belongs
to the aggregate only where no alias hides it and no other column has it too.
-/

namespace ScratchDb.Select

section Texts

variable {texts : ValueTexts} {source g : QueryResult} {q : ParsedQuery}

/-! ## The grouped result by its groups -/

/-- The column of the grouped result for a selected column. -/
def outputColumn (source : QueryResult) (s : SelectedColumn) : QueryResultColumn :=
  if s.aggregate = .count ∧ s.columnName = "*" then
    ⟨if s.columnAlias = "" then "count" else s.columnAlias, "integer"⟩
  else
    match resultColumnIndex source s with
    | .found i =>
      let name := if s.aggregate = .none then (columnOf source i).name else s.aggregate.name
      ⟨if s.columnAlias = "" then name else s.columnAlias, (columnOf source i).type⟩
    | _ => ⟨"", ""⟩

theorem groupedColumns_eq {selected : List SelectedColumn} {columns : List QueryResultColumn}
    (h : groupedColumns source selected = .ok columns) :
    columns = selected.map (outputColumn source) := by
  induction selected generalizing columns with
  | nil =>
    cases h
    rfl
  | cons s selected ih =>
    have hmap : ∀ {c : QueryResultColumn},
        (groupedColumns source selected).map (c :: ·) = .ok columns →
          columns = c :: selected.map (outputColumn source) := by
      intro c hc
      cases hrest : groupedColumns source selected with
      | error e =>
        rw [hrest] at hc
        cases hc
      | ok rest =>
        rw [hrest] at hc
        cases hc
        rw [ih hrest]
    rw [groupedColumns] at h
    rw [List.map_cons, outputColumn]
    split at h
    · rename_i hcount
      rw [if_pos hcount]
      exact hmap h
    · rename_i hcount
      rw [if_neg hcount]
      cases hs : resultColumnIndex source s with
      | ambiguous =>
        rw [hs] at h
        cases h
      | unknown =>
        rw [hs] at h
        cases h
      | found i =>
        rw [hs] at h
        exact hmap h

variable (texts source) in
/-- The text of a selected column over the rows of a group. -/
def groupText (members : List (List String)) (s : SelectedColumn) : String :=
  match groupCell texts (groupOf source members) s with
  | some (.ok text) => text
  | _ => ""

theorem groupCells_eq {members : List (List String)} {selected : List SelectedColumn}
    {row : List String} (h : groupCells texts (groupOf source members) selected = some (.ok row)) :
    row = selected.map (groupText texts source members) := by
  refine eq_map_of_forall₂ ((groupCells_ok h).imp fun s text hcell => ?_)
  rw [groupText, hcell]

variable (texts source q) in
/-- The row of the group of a tuple. -/
def groupOutput (tuple : List String) : List String :=
  q.selectedColumns.map
    (groupText texts source (Grouping.members (groupTuple source q.groupByColumns) source.rows tuple))

variable (source q) in
/-- The tuples of the group columns, in the order of their first rows. -/
def groupTuples : List (List String) :=
  Grouping.firstKeys (groupTuple source q.groupByColumns) source.rows

theorem groupedResult_eq (h : groupedResult texts source q = some g) (hok : g.isOk = true) :
    g.columns = q.selectedColumns.map (outputColumn source) ∧
      g.rows = (groupTuples source q).map (groupOutput texts source q) ∧
      Registered g (basicEntries g.columns) := by
  obtain ⟨indexes, hindexes, -, hrows, hcolumns, hbasic⟩ := groupedResult_ok h hok
  refine ⟨groupedColumns_eq hcolumns, ?_, ?_⟩
  rotate_left
  · rw [hbasic, (sameData_setBasicColumnLookup _).columns]
    exact registered_setBasicColumnLookup rfl rfl
  have hcells := groupsRows_ok hrows
  rw [groupRows_eq hindexes, Grouping.groups, List.map_map, List.forall₂_map_left_iff] at hcells
  exact eq_map_of_forall₂ (hcells.imp fun tuple row hrow => groupCells_eq hrow)

/-- A grouped result has the cells of every group. -/
theorem groupCell_of_grouped (h : groupedResult texts source q = some g) (hok : g.isOk = true)
    {tuple : List String} (htuple : tuple ∈ groupTuples source q) {s : SelectedColumn}
    (hs : s ∈ q.selectedColumns) :
    ∃ text, groupCell texts
      (groupOf source (Grouping.members (groupTuple source q.groupByColumns) source.rows tuple)) s =
        some (.ok text) := by
  obtain ⟨indexes, hindexes, -, hrows, -, -⟩ := groupedResult_ok h hok
  have hcells := groupsRows_ok hrows
  rw [groupRows_eq hindexes, Grouping.groups, List.map_map, List.forall₂_map_left_iff] at hcells
  obtain ⟨row, -, hrow⟩ := exists_of_forall₂ hcells htuple
  obtain ⟨text, -, htext⟩ := exists_of_forall₂ (groupCells_ok hrow) hs
  exact ⟨text, htext⟩

/-! ## The comparison -/

variable (texts) in
/-- The comparison holds of a text of the column. -/
def Satisfies (column : QueryResultColumn) (text : String) (op : QueryOperator) (value : Value) : Bool :=
  compareWithOperator (Value.compareValues (valueFromResultText texts column text) value) op

/-- A condition that is never an error keeps the rows it is true of. -/
theorem keptRows_eq {condition : QueryCondition} {keep : List String → Bool}
    {rows : List (List String)}
    (h : ∀ row ∈ rows, resultRowMatches texts source row condition = .ok (keep row)) :
    keptRows texts source condition rows = .ok (rows.filter keep) := by
  induction rows with
  | nil => rfl
  | cons row rows ih =>
    rw [keptRows, h row List.mem_cons_self, ih fun row' hrow => h row' (List.mem_cons_of_mem row hrow),
      List.filter_cons]
    rfl

theorem keptRows_error {condition : QueryCondition} {row : List String} {rows : List (List String)}
    {e : QueryError} (h : resultRowMatches texts source row condition = .error e) :
    keptRows texts source condition (row :: rows) = .error e := by
  rw [keptRows, h]
  rfl

/-- The comparison of the column that is found, for a literal that its type can read. -/
theorem comparisonMatches_found {row : List String} {function : QueryAggregateFunction}
    {tableAlias name text : String} {position textPosition i : Nat} {op : QueryOperator}
    (hfound : lookupColumn source tableAlias function.name = .found i) :
    resultRowMatches texts source row
        (.comparison (.aggregate function tableAlias name position) op (.literal text textPosition)) =
      match texts.parseValue (columnFromResultColumn (columnOf source i)) text textPosition with
      | .error e => .error (e.toQueryError "")
      | .ok value => .ok (Satisfies texts (columnOf source i) (cell row i) op value) := by
  rw [resultRowMatches, comparisonMatches, if_neg (by simp [QueryExpression.isColumn]),
    comparedColumn, expressionColumnIndex, hfound]
  rfl

theorem comparisonMatches_not_found {row : List String} {function : QueryAggregateFunction}
    {tableAlias name text : String} {position textPosition : Nat} {op : QueryOperator}
    (hnot : ∀ i, lookupColumn source tableAlias function.name ≠ .found i) :
    ∃ e, resultRowMatches texts source row
        (.comparison (.aggregate function tableAlias name position) op (.literal text textPosition)) =
      .error e := by
  rw [resultRowMatches, comparisonMatches, if_neg (by simp [QueryExpression.isColumn]),
    comparedColumn, expressionColumnIndex]
  cases hindex : lookupColumn source tableAlias function.name with
  | found i => exact absurd hindex (hnot i)
  | ambiguous => exact ⟨_, rfl⟩
  | unknown => exact ⟨_, rfl⟩

/-! ## Groups that HAVING keeps -/

/-- A `HAVING` that compares an aggregate with a literal. -/
structure AggregateComparison where
  function : QueryAggregateFunction
  tableAlias : String
  columnName : String
  position : Nat
  op : QueryOperator
  text : String
  textPosition : Nat

def AggregateComparison.condition (c : AggregateComparison) : QueryCondition :=
  .comparison (.aggregate c.function c.tableAlias c.columnName c.position) c.op
    (.literal c.text c.textPosition)

/-- The selected column is the aggregate of the comparison. -/
def AggregateComparison.Names (c : AggregateComparison) (s : SelectedColumn) : Prop :=
  s.aggregate = c.function ∧ s.tableAlias = c.tableAlias ∧ s.columnName = c.columnName

variable (texts) in
/-- The literal as a value of the column. -/
def AggregateComparison.literal (c : AggregateComparison) (column : QueryResultColumn) :
    Except ValueParseError Value :=
  texts.parseValue (columnFromResultColumn column) c.text c.textPosition

variable (texts source q) in
/-- The selected column satisfies the comparison over the rows of a group. -/
def GroupSatisfies (c : AggregateComparison) (s : SelectedColumn) (value : Value)
    (tuple : List String) : Bool :=
  Satisfies texts (outputColumn source s)
    (groupText texts source
      (Grouping.members (groupTuple source q.groupByColumns) source.rows tuple) s) c.op value

variable (texts source q) in
/-- `HAVING` keeps exactly the groups over whose rows the selected column satisfies the comparison. -/
def HavingFilters (g : QueryResult) (c : AggregateComparison) (s : SelectedColumn) (value : Value) :
    Prop :=
  (havingResult texts g q).isOk = true ∧
    (havingResult texts g q).rows =
      ((groupTuples source q).filter (GroupSatisfies texts source q c s value)).map
        (groupOutput texts source q)

theorem eq_of_filter_eq {α : Type} {as : List α} {p p' : α → Bool} (h : as.filter p = as.filter p') :
    ∀ a ∈ as, p a = p' a := by
  intro a ha
  have hmem : ∀ p : α → Bool, a ∈ as.filter p ↔ p a = true := fun p =>
    ⟨fun h => (List.mem_filter.mp h).2, fun h => List.mem_filter.mpr ⟨ha, h⟩⟩
  rw [Bool.eq_iff_iff, ← hmem p, ← hmem p', h]

theorem groupTuples_eq_nil : groupTuples source q = [] ↔ source.rows = [] := by
  refine ⟨fun h => ?_, fun h => ?_⟩
  · refine List.eq_nil_iff_forall_not_mem.mpr fun row hrow => ?_
    have hmem : groupTuple source q.groupByColumns row ∈ groupTuples source q :=
      Grouping.mem_firstKeys.mpr ⟨row, hrow, rfl⟩
    rw [h] at hmem
    cases hmem
  · rw [groupTuples, h]
    rfl

/-- The selected column in the row of a group. -/
theorem cell_groupOutput {i : Nat} {s : SelectedColumn} (hs : q.selectedColumns[i]? = some s)
    (tuple : List String) :
    cell (groupOutput texts source q tuple) i =
      groupText texts source
        (Grouping.members (groupTuple source q.groupByColumns) source.rows tuple) s := by
  rw [cell, groupOutput, List.getElem?_map, hs]
  rfl

variable (texts source q) in
/-- The column that the name of the function finds, with the place and the value of the literal. -/
structure Finds (c : AggregateComparison) (i : Nat) (other : SelectedColumn) (value : Value) :
    Prop where
  selected : q.selectedColumns[i]? = some other
  named : (outputColumn source other).name = qualifiedName c.tableAlias c.function.name
  only : ∀ k s, q.selectedColumns[k]? = some s →
    (outputColumn source s).name = qualifiedName c.tableAlias c.function.name → k = i
  literal : c.literal texts (outputColumn source other) = .ok value

/-- A `HAVING` that finds a column keeps the groups that this column satisfies it for. -/
theorem havingResult_of_finds (hgrouped : groupedResult texts source q = some g)
    (hok : g.isOk = true) {c : AggregateComparison} (hhaving : q.havingCondition = some c.condition)
    {i : Nat} {other : SelectedColumn} {value : Value} (hfinds : Finds texts source q c i other value) :
    HavingFilters texts source q g c other value := by
  obtain ⟨hcolumns, hrows, hregistered⟩ := groupedResult_eq hgrouped hok
  have hfound : lookupColumn g c.tableAlias c.function.name = .found i := by
    refine hregistered.lookup_found.mpr ⟨mem_basicEntries.mpr ⟨outputColumn source other, ?_,
      hfinds.named⟩, fun k hk => ?_⟩
    · rw [hcolumns, List.getElem?_map, hfinds.selected]
      rfl
    · obtain ⟨column, hcolumn, hname⟩ := mem_basicEntries.mp hk
      rw [hcolumns, List.getElem?_map, Option.map_eq_some_iff] at hcolumn
      obtain ⟨s, hs, rfl⟩ := hcolumn
      exact hfinds.only k s hs hname
  have hcolumn : columnOf g i = outputColumn source other := by
    rw [columnOf, hcolumns, List.getElem?_map, hfinds.selected]
    rfl
  have hkept : keptRows texts g c.condition g.rows = .ok (g.rows.filter fun row =>
      Satisfies texts (outputColumn source other) (cell row i) c.op value) := by
    refine keptRows_eq fun row _ => ?_
    rw [AggregateComparison.condition, comparisonMatches_found hfound, hcolumn]
    have hliteral := hfinds.literal
    rw [AggregateComparison.literal] at hliteral
    rw [hliteral]
  rw [HavingFilters, havingResult, hhaving]
  dsimp only
  rw [hkept]
  refine ⟨rfl, ?_⟩
  dsimp only
  rw [hrows, List.filter_map]
  refine congrArg (List.map _) (List.filter_congr fun tuple _ => ?_)
  rw [Function.comp_apply, cell_groupOutput hfinds.selected, GroupSatisfies]

/-- A `HAVING` without error over at least one group finds a column. -/
theorem finds_of_isOk (hgrouped : groupedResult texts source q = some g) (hok : g.isOk = true)
    {c : AggregateComparison} (hhaving : q.havingCondition = some c.condition)
    (hrows : source.rows ≠ []) (h : (havingResult texts g q).isOk = true) :
    ∃ i other value, Finds texts source q c i other value := by
  obtain ⟨hcolumns, hgroups, hregistered⟩ := groupedResult_eq hgrouped hok
  obtain ⟨tuple, tuples, htuples⟩ :=
    List.exists_cons_of_ne_nil (mt groupTuples_eq_nil.mp hrows : groupTuples source q ≠ [])
  -- the first group is evaluated without error
  have hfirst : ∀ e, resultRowMatches texts g (groupOutput texts source q tuple) c.condition ≠
      .error e := by
    intro e he
    rw [havingResult, hhaving] at h
    dsimp only at h
    rw [hgroups, htuples, List.map_cons, keptRows_error he] at h
    cases h
  rw [AggregateComparison.condition] at hfirst
  have hmissing : ¬ ∀ i, lookupColumn g c.tableAlias c.function.name ≠ .found i :=
    fun hnot => (comparisonMatches_not_found hnot).elim hfirst
  cases hindex : lookupColumn g c.tableAlias c.function.name with
  | ambiguous => exact absurd (fun i hi => by rw [hindex] at hi; cases hi) hmissing
  | unknown => exact absurd (fun i hi => by rw [hindex] at hi; cases hi) hmissing
  | found i =>
    obtain ⟨hmem, honly⟩ := hregistered.lookup_found.mp hindex
    obtain ⟨column, hcolumn, hname⟩ := mem_basicEntries.mp hmem
    rw [hcolumns, List.getElem?_map, Option.map_eq_some_iff] at hcolumn
    obtain ⟨other, hother, rfl⟩ := hcolumn
    have hsame : columnOf g i = outputColumn source other := by
      rw [columnOf, hcolumns, List.getElem?_map, hother]
      rfl
    cases hliteral : c.literal texts (outputColumn source other) with
    | error e =>
      refine absurd ?_ (hfirst (e.toQueryError ""))
      rw [AggregateComparison.literal] at hliteral
      rw [comparisonMatches_found hindex, hsame, hliteral]
    | ok value =>
      refine ⟨i, other, value, hother, hname, fun k s hs hk => honly k ?_, hliteral⟩
      refine mem_basicEntries.mpr ⟨outputColumn source s, ?_, hk⟩
      rw [hcolumns, List.getElem?_map, hs]
      rfl

/-- The groups that a selected column satisfies a comparison for, as a filter of the rows. -/
theorem filter_groups {c : AggregateComparison} {s : SelectedColumn} {value : Value} {j : Nat}
    (hs : q.selectedColumns[j]? = some s) :
    ((groupTuples source q).filter (GroupSatisfies texts source q c s value)).map
        (groupOutput texts source q) =
      ((groupTuples source q).map (groupOutput texts source q)).filter fun row =>
        Satisfies texts (outputColumn source s) (cell row j) c.op value := by
  rw [List.filter_map]
  refine congrArg (List.map _) (List.filter_congr fun tuple _ => ?_)
  rw [Function.comp_apply, cell_groupOutput hs, GroupSatisfies]

/-- `COUNT(*) > 1`. -/
def countAboveOne : AggregateComparison where
  function := .count
  tableAlias := ""
  columnName := "*"
  position := 0
  op := .greater
  text := "1"
  textPosition := 0

/-- `SELECT name, COUNT(*) AS countAlias FROM pairs GROUP BY name HAVING COUNT(*) > 1`. -/
def repeatedNames (countAlias : String) : ParsedQuery :=
  { ParsedQuery.allOf "pairs" with
    selectAll := false
    selectedColumns := [{ columnName := "name" },
      { columnName := "*", aggregate := .count, columnAlias := countAlias }]
    groupByColumns := [{ columnName := "name" }]
    havingCondition := some countAboveOne.condition }

/-- The result of the groups. -/
def countedNames (countAlias : String) : QueryResult :=
  QueryResult.setBasicColumnLookup
    { columns := [⟨"name", "varstring"⟩,
        ⟨if countAlias = "" then "count" else countAlias, "integer"⟩]
      rows := [["b", "2"], ["a", "1"]]
      rowCount := 2 }

end Texts

end ScratchDb.Select
