import ScratchDb.Select.ColumnLookups
import ScratchDb.Select.NumberConversions

/-!
# ORDER BY and LIMIT

What a query returns is read off one sorted list: the rows that its stages before
`ORDER BY` leave, in the order of its columns, ties in the order they came in.
There is only one such list. `LIMIT` takes its beginning, so no row that is left
out comes before a row that is returned.
-/

namespace ScratchDb.Select

open OpenRecursion

section Stages

variable (texts : ValueTexts) (command : String)

/-- Without groups and aggregates, rows are ordered before they are projected. -/
def ParsedQuery.isPlain (q : ParsedQuery) : Bool :=
  q.groupByColumns = [] && !selectedHasAggregate q

/-- What `execute_select` gives to `order_result`. -/
def unorderedResult (q : ParsedQuery) (rows : QueryResult) : Option QueryResult :=
  if q.groupByColumns ≠ [] then (groupedResult texts rows q).map (havingResult texts · q)
  else if selectedHasAggregate q then
    (aggregateResult texts rows q.selectedColumns).map (havingResult texts · q)
  else some rows

/-- The row that is returned for an ordered one. -/
def shownRow (q : ParsedQuery) (source : QueryResult) (row : List String) : List String :=
  if q.isPlain = false ∨ q.selectAll = true then row
  else
    match selectedIndexes source q.selectedColumns with
    | .error _ => []
    | .ok indexes =>
      q.selectedColumns.zipWith (fun s i => applyScalarFunction s.scalarFunction (cell row i)) indexes

/-- The first rows, where there is a `LIMIT`. -/
def limitRows (q : ParsedQuery) (rows : List (List String)) : List (List String) :=
  match q.limitCount with
  | none => rows
  | some count => rows.take count

variable {texts command} {q : ParsedQuery} {r r' result : QueryResult}

theorem rows_limitResult : (limitResult r q).rows = limitRows q r.rows := by
  rw [limitResult, limitRows]
  cases q.limitCount with
  | none => rfl
  | some count => rfl

theorem error_limitResult : (limitResult r q).error = r.error := by
  rw [limitResult]
  cases q.limitCount with
  | none => rfl
  | some count => rfl

theorem limitRows_map (f : List String → List String) (rows : List (List String)) :
    limitRows q (rows.map f) = (limitRows q rows).map f := by
  rw [limitRows, limitRows]
  cases q.limitCount with
  | none => rfl
  | some count => exact List.map_take.symm

theorem selectedIndexes_congr (hpositions : r.columnPositions = r'.columnPositions)
    (hambiguous : r.ambiguousColumns = r'.ambiguousColumns) (selected : List SelectedColumn) :
    selectedIndexes r selected = selectedIndexes r' selected := by
  induction selected with
  | nil => rfl
  | cons s selected ih =>
    rw [selectedIndexes, selectedIndexes, ih, resultColumnIndex, resultColumnIndex, lookupColumn,
      lookupColumn, hpositions, hambiguous]

/-- The stage of `ORDER BY`: a stable sort, which can come out in one way only. -/
theorem orderResult_sorted [Std.TransCmp texts.numbers.compare]
    (h : orderResult texts r q = some r') (hok : r'.isOk = true) :
    ∃ indexes, orderIndexes r q.selectedColumns q.orderByColumns = .ok indexes ∧
      PartialSort.StablySorted (rowOrder texts r.columns indexes) r.rows r'.rows ∧
      r' = { r with rows := r'.rows } := by
  rw [orderResult] at h
  split at h
  · rename_i hnone
    cases h
    refine ⟨[], by rw [hnone]; rfl, ⟨List.Perm.refl _, ?_, fun _ => rfl⟩, rfl⟩
    exact List.pairwise_of_forall fun _ _ => ⟨.eq, rfl, rfl⟩
  · cases hindexes : orderIndexes r q.selectedColumns q.orderByColumns with
    | error e =>
      rw [hindexes] at h
      cases h
      cases hok
    | ok indexes =>
      simp only [hindexes, Option.bind_eq_bind, Option.bind_eq_some_iff, Option.pure_def,
        Option.some.injEq] at h
      obtain ⟨rows, hrows, rfl⟩ := h
      refine ⟨indexes, rfl, ?_, rfl⟩
      have hless : (fun left right => rowLess texts r.columns left right indexes) =
          PartialSort.lessBy (rowOrder texts r.columns indexes) := by
        funext left right
        exact rowLess_eq r.columns indexes left right
      rw [hless, stableSort_eq] at hrows
      exact PartialSort.stablySorted_sort (lawful_rowOrder r.columns indexes) hrows

/-- The rows of a projection, where all selected columns are found. -/
theorem rows_projectResult (hok : (projectResult r q).isOk = true) (hplain : q.isPlain = true) :
    (projectResult r q).rows = r.rows.map (shownRow q r) := by
  rw [projectResult] at hok ⊢
  by_cases hall : q.selectAll = true
  · rw [if_pos hall]
    conv_lhs => rw [← List.map_id r.rows]
    refine List.map_congr_left fun row _ => ?_
    rw [shownRow, if_pos (.inr hall)]
    rfl
  · rw [if_neg hall] at hok ⊢
    have hnot : ¬ (q.isPlain = false ∨ q.selectAll = true) := by simp [hplain, hall]
    cases hindexes : selectedIndexes r q.selectedColumns with
    | error e =>
      rw [hindexes] at hok
      cases hok
    | ok indexes =>
      dsimp only
      rw [(sameData_setBasicColumnLookup _).rows]
      refine List.map_congr_left fun row _ => ?_
      rw [shownRow, if_neg hnot, hindexes]

theorem shownRow_congr {s : QueryResult} (hpositions : r.columnPositions = s.columnPositions)
    (hambiguous : r.ambiguousColumns = s.ambiguousColumns) : shownRow q r = shownRow q s := by
  funext row
  rw [shownRow, shownRow, selectedIndexes_congr hpositions hambiguous]

/-- The stages are those before the order, the order, and what is done with the ordered rows. -/
theorem finishSelect_rows [Std.TransCmp texts.numbers.compare] {rows : QueryResult}
    (h : finishSelect texts command q rows = some result) (hok : result.isOk = true) :
    ∃ unordered ordered, unorderedResult texts q rows = some unordered ∧
      orderResult texts unordered q = some ordered ∧ ordered.isOk = true ∧
      result.rows = limitRows q (ordered.rows.map (shownRow q unordered)) := by
  have hshown : ∀ {r : QueryResult}, q.isPlain = false → r.rows.map (shownRow q r) = r.rows := by
    intro r hplain
    conv_rhs => rw [← List.map_id r.rows]
    refine List.map_congr_left fun row _ => ?_
    rw [shownRow, if_pos (.inl hplain)]
    rfl
  rw [finishSelect] at h
  split at h
  · rename_i hgroup
    split at h
    · cases h
      cases hok
    · simp only [Option.bind_eq_bind, Option.bind_eq_some_iff, Option.some.injEq] at h
      obtain ⟨grouped, hgrouped, ordered, hordered, rfl⟩ := h
      refine ⟨havingResult texts grouped q, ordered, ?_, hordered, ?_, ?_⟩
      · rw [unorderedResult, if_pos hgroup, hgrouped, Option.map_some]
      · rwa [QueryResult.isOk, error_limitResult] at hok
      · have hplain : q.isPlain = false := by simp [ParsedQuery.isPlain, hgroup]
        obtain ⟨-, -, -, heq⟩ := orderResult_sorted hordered (by
          rwa [QueryResult.isOk, error_limitResult] at hok)
        rw [rows_limitResult, shownRow_congr (s := ordered) (by rw [heq]) (by rw [heq]),
          hshown hplain]
  · rename_i hgroup
    split at h
    · rename_i haggregate
      simp only [Option.bind_eq_bind, Option.bind_eq_some_iff, Option.some.injEq] at h
      obtain ⟨aggregated, haggregated, ordered, hordered, rfl⟩ := h
      refine ⟨havingResult texts aggregated q, ordered, ?_, hordered, ?_, ?_⟩
      · rw [unorderedResult, if_neg hgroup, if_pos haggregate, haggregated, Option.map_some]
      · rwa [QueryResult.isOk, error_limitResult] at hok
      · have hplain : q.isPlain = false := by simp [ParsedQuery.isPlain, haggregate]
        obtain ⟨-, -, -, heq⟩ := orderResult_sorted hordered (by
          rwa [QueryResult.isOk, error_limitResult] at hok)
        rw [rows_limitResult, shownRow_congr (s := ordered) (by rw [heq]) (by rw [heq]),
          hshown hplain]
    · rename_i haggregate
      split at h
      · cases h
        cases hok
      · simp only [Option.bind_eq_bind, Option.bind_eq_some_iff] at h
        obtain ⟨ordered, hordered, h⟩ := h
        split at h
        · rename_i hfailed
          cases h
          rw [hfailed] at hok
          cases hok
        · rename_i hordok
          cases h
          have hplain : q.isPlain = true := by
            rw [not_not] at hgroup
            simp [ParsedQuery.isPlain, hgroup, haggregate]
          have hordok : ordered.isOk = true := by simpa using hordok
          obtain ⟨-, -, -, heq⟩ := orderResult_sorted hordered hordok
          refine ⟨rows, ordered, ?_, hordered, hordok, ?_⟩
          · rw [unorderedResult, if_neg hgroup, if_neg haggregate]
          · rw [rows_limitResult, rows_projectResult _ hplain,
              shownRow_congr (r := rows) (s := ordered) (by rw [heq]) (by rw [heq])]
            rwa [QueryResult.isOk, error_limitResult] at hok

end Stages

/-! ## Queries -/

section Queries

variable (env : SelectEnv) (chain : ParsedQuery × Option Outer → Run QueryResult) (q : ParsedQuery)

/-- The result has the first rows of the one stably sorted list of what the stages before `ORDER BY`
leave, and no row that `LIMIT` leaves out comes before one of them. -/
def ReturnsInOrder (result : QueryResult) : Prop :=
  ∃ rows unordered indexes sorted, ReachStages env chain q rows ∧
    unorderedResult env.texts q rows = some unordered ∧
    orderIndexes unordered q.selectedColumns q.orderByColumns = .ok indexes ∧
    PartialSort.StablySorted (rowOrder env.texts unordered.columns indexes) unordered.rows sorted ∧
    (∀ other, PartialSort.StablySorted (rowOrder env.texts unordered.columns indexes)
      unordered.rows other → other = sorted) ∧
    result.rows = (limitRows q sorted).map (shownRow q unordered) ∧
    ∀ count, q.limitCount = some count → ∀ kept ∈ sorted.take count, ∀ left ∈ sorted.drop count,
      PartialSort.NotAfter (rowOrder env.texts unordered.columns indexes) kept left

variable {env chain q}

theorem executeSelect_ordered {result : QueryResult}
    (hnumbers : Std.TransCmp env.texts.numbers.compare)
    (h : executeSelect env chain q = .ok result) (hok : result.isOk = true) :
    ReturnsInOrder env chain q result := by
  obtain ⟨rows, hrows, hfinish⟩ := reachStages_of_ok h hok
  obtain ⟨unordered, ordered, hunordered, hordered, horderedOk, hresult⟩ :=
    finishSelect_rows hfinish hok
  obtain ⟨indexes, hindexes, hsorted, -⟩ := orderResult_sorted hordered horderedOk
  refine ⟨rows, unordered, indexes, ordered.rows, hrows, hunordered, hindexes, hsorted, ?_, ?_, ?_⟩
  · intro other hother
    exact hother.unique (lawful_rowOrder unordered.columns indexes) hsorted
  · rw [hresult, limitRows_map]
  · intro count _
    exact hsorted.notAfter_of_take count

/-- `SELECT n FROM t ORDER BY n DESC LIMIT 1`. -/
def largestNumber : ParsedQuery :=
  { orderedNumbers with
    orderByColumns := [{ column := { columnName := "n" }, descending := true }]
    limitCount := some 1 }

theorem executeSelect_ordered_largest :
    ReturnsInOrder numbersTable (fun _ => .error .outOfFuel) largestNumber
      { columns := [⟨"n", "integer"⟩], rows := [["2"]], rowCount := 1,
        columnPositions := [("n", 0)] } :=
  executeSelect_ordered transCmp_integers (by decide +kernel) rfl

end Queries

end ScratchDb.Select
