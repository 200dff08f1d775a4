import ScratchDb.Select.Groups
import ScratchDb.Select.Ordering
import ScratchDb.Select.SurvivingErrors

/-!
# Texts read as numbers

`aggregate_result` and `order_result` of `src/query/query_executor.cpp` read the
cells of numeric columns with `std::stold`. A cell need not be a number: a stored
NULL is the text `NULL`, and an aggregate over no rows is the empty text. A
`SELECT` throws where such a cell is read.
-/

namespace ScratchDb.Select

open OpenRecursion

section Texts

variable {texts : ValueTexts} {source r : QueryResult} {q : ParsedQuery}
  {selected : List SelectedColumn}

/-! ## ORDER BY -/

variable (texts) in
/-- Two rows have numbers in the numeric columns of `ORDER BY`, as far as the columns before are
ties. -/
def RowsConvert (columns : List QueryResultColumn) (left right : List String) :
    List (Nat × Bool) → Prop
  | [] => True
  | (i, _) :: indexes =>
    let column := columns[i]?.getD ⟨"", ""⟩
    Converts texts column [cell left i, cell right i] ∧
      (compareCells texts column (cell left i) (cell right i) = some .eq →
        RowsConvert columns left right indexes)

variable (texts) in
/-- The rows of a result can be ordered, two by two. -/
def OrderConverts (r : QueryResult) (q : ParsedQuery) : Prop :=
  ∀ indexes, orderIndexes r q.selectedColumns q.orderByColumns = .ok indexes →
    r.rows.Pairwise fun left right => RowsConvert texts r.columns left right indexes

theorem compareCells_ne_none {column : QueryResultColumn} {left right : String} :
    compareCells texts column left right ≠ none ↔ Converts texts column [left, right] := by
  unfold compareCells Converts
  cases hcolumn : isNumeric column with
  | false => simp
  | true =>
    cases hleft : stold texts left with
    | none => simp [hleft]
    | some l =>
      cases hright : stold texts right with
      | none => simp [hright]
      | some r => simp [hleft, hright]

theorem rowOrder_ne_none {columns : List QueryResultColumn} {left right : List String}
    {indexes : List (Nat × Bool)} :
    rowOrder texts columns indexes left right ≠ none ↔
      RowsConvert texts columns left right indexes := by
  induction indexes with
  | nil => simp [rowOrder, RowsConvert]
  | cons index indexes ih =>
    obtain ⟨i, descending⟩ := index
    rw [RowsConvert, ← ih, ← compareCells_ne_none, rowOrder]
    cases hcells : compareCells texts (columns[i]?.getD ⟨"", ""⟩) (cell left i) (cell right i) with
    | none => cases descending <;> simp [PartialSort.lex, PartialSort.reverse, hcells]
    | some o =>
      cases o <;> cases descending <;> simp [PartialSort.lex, PartialSort.reverse, hcells]

theorem orderResult_eq_none [Std.TransCmp texts.numbers.compare] :
    orderResult texts r q = none ↔ ¬ OrderConverts texts r q := by
  unfold orderResult OrderConverts
  split
  · rename_i horder
    refine ⟨fun h => (by cases h), fun h => absurd (fun indexes hindexes => ?_) h⟩
    rw [horder] at hindexes
    cases hindexes
    exact List.pairwise_of_forall fun _ _ => trivial
  · cases hindexes : orderIndexes r q.selectedColumns q.orderByColumns with
    | error e =>
      refine ⟨fun h => (by cases h), fun h => absurd (fun indexes hok => ?_) h⟩
      cases hok
    | ok indexes =>
      have hsort := @stableSort_eq_none texts _ r.columns indexes r.rows
      simp only [rowOrder_ne_none] at hsort
      have hpairs : (∀ indexes', Except.ok indexes = (.ok indexes' : Except QueryError _) →
          r.rows.Pairwise fun left right => RowsConvert texts r.columns left right indexes') ↔
            r.rows.Pairwise fun left right => RowsConvert texts r.columns left right indexes := by
        refine ⟨fun h => h indexes rfl, fun h indexes' hsame => ?_⟩
        cases hsame
        exact h
      rw [hpairs, ← hsort]
      dsimp only
      cases stableSort (fun left right => rowLess texts r.columns left right indexes) r.rows with
      | none => exact ⟨fun _ => rfl, fun _ => rfl⟩
      | some rows => exact ⟨fun h => (by cases h), fun h => (by cases h)⟩

/-- One row is not compared with another one. -/
theorem orderConverts_of_length (h : r.rows.length ≤ 1) : OrderConverts texts r q := by
  intro indexes _
  match hrows : r.rows with
  | [] => exact List.Pairwise.nil
  | [row] => exact List.pairwise_singleton _ row
  | _ :: _ :: _ =>
    rw [hrows] at h
    exact absurd h (by simp)

/-! ## Aggregates -/

theorem aggregateResult_eq_none :
    aggregateResult texts source selected = none ↔
      Meets (Throws texts source) (Refused source) selected := by
  rw [← aggregateColumns_eq_none, aggregateResult]
  cases aggregateColumns texts source selected with
  | none => exact ⟨fun _ => rfl, fun _ => rfl⟩
  | some cs =>
    refine ⟨fun h => ?_, fun h => (by cases h)⟩
    cases cs with
    | error e => cases h
    | ok cs => cases h

/-- An aggregate has one row or has failed. -/
theorem length_aggregateResult (h : aggregateResult texts source selected = some r) :
    r.rows.length ≤ 1 := by
  simp only [aggregateResult, Option.bind_eq_bind, Option.bind_eq_some_iff] at h
  obtain ⟨cs, -, h⟩ := h
  split at h
  · cases h
    exact Nat.zero_le 1
  · cases h
    rw [(sameData_setBasicColumnLookup _).rows]
    exact Nat.le_refl 1

theorem length_havingResult : (havingResult texts r q).rows.length ≤ r.rows.length := by
  unfold havingResult
  split
  · exact Nat.le_refl _
  · split
    · exact Nat.zero_le _
    · rename_i rows hkept
      exact (keptRows_sublist hkept).length_le

/-! ## GROUP BY -/

/-- The groups have the cells of all rows. -/
theorem throws_groupOf {rows : List (List String)} {s : SelectedColumn} (hrows : rows ⊆ source.rows)
    (h : Throws texts (groupOf source rows) s) : Throws texts source s := by
  obtain ⟨hcount, hne, i, hi, hnot⟩ := h
  refine ⟨hcount, hne, i, hi, fun hconverts => hnot fun hnumeric text htext => ?_⟩
  obtain ⟨row, hrow, rfl⟩ := List.mem_map.mp htext
  exact hconverts hnumeric _ (List.mem_map.mpr ⟨row, hrows hrow, rfl⟩)

theorem exists_throws_groupOf {α : Type} [DecidableEq α] {key : List String → α} {s : SelectedColumn}
    (h : Throws texts source s) :
    ∃ g ∈ Grouping.groups key source.rows, Throws texts (groupOf source g.2) s := by
  obtain ⟨hcount, hne, i, hi, hnot⟩ := h
  rw [Converts, Classical.not_imp, not_forall] at hnot
  obtain ⟨hnumeric, text, htext⟩ := hnot
  rw [Classical.not_imp] at htext
  obtain ⟨row, hrow, rfl⟩ := List.mem_map.mp htext.1
  refine ⟨(key row, Grouping.members key source.rows (key row)),
    List.mem_map.mpr ⟨key row, Grouping.mem_firstKeys.mpr ⟨row, hrow, rfl⟩, rfl⟩,
    hcount, hne, i, hi, fun hconverts => ?_⟩
  refine htext.2 (hconverts hnumeric _ (List.mem_map.mpr ⟨row, ?_, rfl⟩))
  exact Grouping.mem_members.mpr ⟨hrow, rfl⟩

theorem exists_throws_of_groupsRows {groups : List (String × List (List String))}
    (hplain : ∀ s ∈ selected, s.aggregate = .none → Resolves source s)
    (h : groupsRows texts source selected groups = none) :
    ∃ g ∈ groups, ∃ s ∈ selected, Throws texts (groupOf source g.2) s := by
  induction groups with
  | nil => cases h
  | cons g groups ih =>
    rw [groupsRows] at h
    cases hcells : groupCells texts (groupOf source g.2) selected with
    | none =>
      have hmeets := (@groupCells_eq_none texts (groupOf source g.2) selected hplain).mp hcells
      exact ⟨g, List.mem_cons_self, hmeets.exists⟩
    | some c =>
      rw [groupOf] at hcells
      rw [hcells] at h
      cases c with
      | error e => cases h
      | ok row =>
        cases hrest : groupsRows texts source selected groups with
        | none =>
          obtain ⟨g', hg', hthrows⟩ := ih hrest
          exact ⟨g', List.mem_cons_of_mem g hg', hthrows⟩
        | some rest =>
          rw [hrest] at h
          cases h

/-- A row of a group has been read without an exception. -/
theorem not_throws_of_groupsRows {groups : List (String × List (List String))}
    {rows : List (List String)} (h : groupsRows texts source selected groups = some (.ok rows)) :
    ∀ g ∈ groups, ∀ s ∈ selected, ¬ Throws texts (groupOf source g.2) s := by
  intro g hg s hs hthrows
  obtain ⟨row, -, hrow⟩ := exists_of_forall₂ (groupsRows_ok h) hg
  obtain ⟨text, -, htext⟩ := exists_of_forall₂ (groupCells_ok hrow) hs
  rw [groupCell_eq_none.mpr hthrows] at htext
  cases htext

theorem groupedResult_eq_none :
    groupedResult texts source q = none ↔
      ¬ GroupingRefused texts source q ∧ ∃ s ∈ q.selectedColumns, Throws texts source s := by
  constructor
  · intro h
    have hrefused : ¬ GroupingRefused texts source q := by
      intro hrefused
      obtain ⟨r, hr, -⟩ := groupedResult_error.mpr hrefused
      rw [h] at hr
      cases hr
    have hplain : ∀ s ∈ q.selectedColumns, s.aggregate = .none → Resolves source s := by
      intro s hs haggregate
      by_contra hnot
      refine hrefused (.inr (.inr (.inl ⟨s, hs, fun hcount => ?_, hnot⟩)))
      rw [SelectedColumn.CountsRows, haggregate] at hcount
      cases hcount.1
    refine ⟨hrefused, ?_⟩
    unfold groupedResult at h
    split at h
    · cases h
    · rename_i indexes hindexes
      split at h
      · cases h
      · split at h
        · cases h
        · cases hrows : groupsRows texts source q.selectedColumns (groupRows indexes source.rows) with
          | some c =>
            rw [hrows] at h
            cases c with
            | error e => cases h
            | ok rows => cases h
          | none =>
            obtain ⟨g, hg, s, hs, hthrows⟩ := exists_throws_of_groupsRows hplain hrows
            rw [groupRows_eq hindexes, List.mem_map] at hg
            obtain ⟨g', hg', rfl⟩ := hg
            obtain ⟨k, -, rfl⟩ := List.mem_map.mp hg'
            exact ⟨s, hs, throws_groupOf (fun row hrow => (Grouping.mem_members.mp hrow).1) hthrows⟩
  · rintro ⟨hrefused, s, hs, hthrows⟩
    cases hgrouped : groupedResult texts source q with
    | none => rfl
    | some r =>
      have hok : r.isOk = true := by
        by_contra hnot
        exact hrefused (groupedResult_error.mp ⟨r, hgrouped, by simpa using hnot⟩)
      obtain ⟨indexes, hindexes, -, hrows, -⟩ := groupedResult_ok hgrouped hok
      obtain ⟨g, hg, hthrows⟩ :=
        @exists_throws_groupOf texts source _ _ (groupTuple source q.groupByColumns) s hthrows
      refine absurd hthrows (not_throws_of_groupsRows hrows (rowKey g.1, g.2) ?_ s hs)
      rw [groupRows_eq hindexes]
      exact List.mem_map.mpr ⟨g, hg, rfl⟩

/-! ## Whole queries -/

variable (texts q) in
/-- Every cell that the stages behind the rows read as a number is one: those of the aggregates, as
long as no column before is refused, and those that `ORDER BY` compares. -/
def StagesConvert (rows : QueryResult) : Prop :=
  if q.groupByColumns ≠ [] then
    q.selectAll = false →
      (GroupingRefused texts rows q ∨ ∀ s ∈ q.selectedColumns, ¬ Throws texts rows s) ∧
        ∀ g, groupedResult texts rows q = some g → OrderConverts texts (havingResult texts g q) q
  else if selectedHasAggregate q = true then
    ¬ Meets (Throws texts rows) (Refused rows) q.selectedColumns
  else q.havingCondition = none → OrderConverts texts rows q

theorem finishSelect_eq_none [Std.TransCmp texts.numbers.compare] {command : String} :
    finishSelect texts command q source = none ↔ ¬ StagesConvert texts q source := by
  unfold finishSelect StagesConvert
  by_cases hgroups : q.groupByColumns ≠ []
  · rw [if_pos hgroups, if_pos hgroups]
    cases hall : q.selectAll with
    | true => simp
    | false =>
      rw [if_neg (by decide)]
      cases hgrouped : groupedResult texts source q with
      | none =>
        obtain ⟨hrefused, s, hs, hthrows⟩ := groupedResult_eq_none.mp hgrouped
        refine ⟨fun _ h => ?_, fun _ => rfl⟩
        rcases (h rfl).1 with h | h
        · exact hrefused h
        · exact h s hs hthrows
      | some g =>
        have hgroup : GroupingRefused texts source q ∨
            ∀ s ∈ q.selectedColumns, ¬ Throws texts source s := by
          by_contra hnot
          rw [not_or] at hnot
          have hthrows : ∃ s ∈ q.selectedColumns, Throws texts source s := by
            by_contra hnone
            exact hnot.2 fun s hs hthrows => hnone ⟨s, hs, hthrows⟩
          rw [groupedResult_eq_none.mpr ⟨hnot.1, hthrows⟩] at hgrouped
          cases hgrouped
        have hsame : (false = false → (GroupingRefused texts source q ∨
            ∀ s ∈ q.selectedColumns, ¬ Throws texts source s) ∧
              ∀ g', some g = some g' → OrderConverts texts (havingResult texts g' q) q) ↔
            OrderConverts texts (havingResult texts g q) q := by
          refine ⟨fun h => (h rfl).2 g rfl, fun h _ => ⟨hgroup, fun g' hg' => ?_⟩⟩
          cases hg'
          exact h
        rw [hsame, ← orderResult_eq_none]
        simp only [Option.bind_eq_bind, Option.bind_some]
        cases orderResult texts (havingResult texts g q) q with
        | none => exact ⟨fun _ => rfl, fun _ => rfl⟩
        | some ordered => exact ⟨fun h => (by cases h), fun h => (by cases h)⟩
  · rw [if_neg hgroups, if_neg hgroups]
    cases haggregate : selectedHasAggregate q with
    | true =>
      rw [if_pos rfl, if_pos rfl, not_not, ← aggregateResult_eq_none]
      cases haggregated : aggregateResult texts source q.selectedColumns with
      | none => exact ⟨fun _ => rfl, fun _ => rfl⟩
      | some a =>
        -- the one row of an aggregate is not compared
        have horder : orderResult texts (havingResult texts a q) q ≠ none := by
          intro hnone
          refine orderResult_eq_none.mp hnone (orderConverts_of_length ?_)
          exact length_havingResult.trans (length_aggregateResult haggregated)
        cases hordered : orderResult texts (havingResult texts a q) q with
        | none => exact absurd hordered horder
        | some ordered =>
          refine ⟨fun h => ?_, fun h => (by cases h)⟩
          simp only [Option.bind_eq_bind, Option.bind_some, hordered] at h
          cases h
    | false =>
      rw [if_neg (by decide), if_neg (by decide)]
      cases hhaving : q.havingCondition with
      | some condition => simp
      | none =>
        have hsame : ((none : Option QueryCondition) = none → OrderConverts texts source q) ↔
            OrderConverts texts source q := ⟨fun h => h rfl, fun h _ => h⟩
        rw [hsame, ← orderResult_eq_none]
        dsimp only
        cases orderResult texts source q with
        | none => exact ⟨fun _ => rfl, fun _ => rfl⟩
        | some ordered =>
          refine ⟨fun h => ?_, fun h => (by cases h)⟩
          simp only [Option.bind_eq_bind, Option.bind_some] at h
          split at h
          · cases h
          · cases h

end Texts

section Queries

variable (env : SelectEnv) (chain : ParsedQuery × Option Outer → Run QueryResult) (q : ParsedQuery)

/-- No stage behind the rows throws. -/
def NumbersEvaluate : Prop :=
  ∀ rows, ReachStages env chain q rows → finishSelect env.texts env.command q rows ≠ none

/-- `ORDER BY` and the aggregates evaluate exactly where every cell they read as a number is one. -/
theorem numbers_evaluate_iff (env : SelectEnv)
    (chain : ParsedQuery × Option Outer → Run QueryResult) (q : ParsedQuery)
    (hnumbers : Std.TransCmp env.texts.numbers.compare) :
    NumbersEvaluate env chain q ↔
      ∀ rows, ReachStages env chain q rows → StagesConvert env.texts q rows := by
  refine forall_congr' fun rows => imp_congr_right fun _ => ?_
  rw [Ne, finishSelect_eq_none, not_not]

/-- `SELECT n FROM t ORDER BY n`. -/
def orderedNumbers : ParsedQuery :=
  { ParsedQuery.allOf "t" with
    selectAll := false
    selectedColumns := [{ columnName := "n" }]
    orderByColumns := [{ column := { columnName := "n" }, descending := false }] }

theorem compare_integers : integerTexts.numbers.compare = (compare : Int → Int → Ordering) := by
  funext (x : Int) (y : Int)
  show (if (x == y) = true then Ordering.eq else if decide (x < y) = true then .lt else .gt) =
    compareOfLessAndEq x y
  unfold compareOfLessAndEq
  rcases Int.lt_trichotomy x y with h | rfl | h
  · simp [h, Int.ne_of_lt h]
  · simp
  · simp [(Int.ne_of_lt h).symm, Int.not_lt.mpr (Int.le_of_lt h)]

theorem transCmp_integers : Std.TransCmp integerTexts.numbers.compare := by
  have h : Std.TransCmp (compare : Int → Int → Ordering) := inferInstance
  rw [compare_integers]
  exact h

/-- Numbers are sorted without an exception. -/
theorem numbers_evaluate_iff_orderedNumbers :
    NumbersEvaluate numbersTable (fun _ => .error .outOfFuel) orderedNumbers := by
  refine (numbers_evaluate_iff numbersTable _ orderedNumbers transCmp_integers).mpr
    fun rows hrows => ?_
  obtain ⟨source, hsource, -, hwhere⟩ := hrows
  cases hsource
  cases hwhere
  intro _ indexes hindexes
  have hfirst : orderIndexes (selectAll numbersTable "t" "") orderedNumbers.selectedColumns
      orderedNumbers.orderByColumns = .ok [(0, false)] := by decide
  cases hfirst.symm.trans hindexes
  refine List.pairwise_pair.mpr ⟨fun _ => ?_, fun _ => trivial⟩
  decide

/-- One table `t (n)` with a number and a NULL. -/
def nullableTable : SelectEnv :=
  { integerTables [⟨"t", ["n"], []⟩] "" with
    scanRows := fun _ => ([⟨⟨0, 0⟩, [.integer 1]⟩, ⟨⟨0, 0⟩, [.null]⟩], true) }

/-- The text of a NULL is no number. -/
theorem null_not_ordered : ¬ NumbersEvaluate nullableTable (fun _ => .error .outOfFuel) orderedNumbers := by
  intro h
  refine h (selectAll nullableTable "t" "") ⟨_, rfl, rfl, rfl⟩ ?_
  decide

end Queries

end ScratchDb.Select
