import ScratchDb.Select.Groups
import ScratchDb.Select.Outcomes

/-!
# Errors on the way through a SELECT

`execute_select` of `src/query/query_executor.cpp` hands the result of one stage
to the next, with its error. `having_result` builds a new result and leaves the
error behind; a result that has lost its error has no columns either, so that
`order_result` fails on it, and nothing else does.
-/

namespace ScratchDb.Select

open OpenRecursion

section Texts

variable {texts : ValueTexts} {source r r' : QueryResult} {q : ParsedQuery}

/-! ## Stages -/

/-- A failed group or aggregate stage has nothing but its error. -/
theorem groupedResult_failed (h : groupedResult texts source q = some r) (hok : r.isOk = false) :
    ∃ e, r = failed e := by
  unfold groupedResult at h
  split at h
  · cases h
    exact ⟨_, rfl⟩
  · split at h
    · cases h
      exact ⟨_, rfl⟩
    · split at h
      · cases h
        exact ⟨_, rfl⟩
      · simp only [Option.bind_eq_bind, Option.bind_eq_some_iff] at h
        obtain ⟨rows, -, h⟩ := h
        split at h
        · cases h
          exact ⟨_, rfl⟩
        · cases h
          rw [isOk_setBasicColumnLookup] at hok
          cases hok

theorem aggregateResult_failed {selected : List SelectedColumn}
    (h : aggregateResult texts source selected = some r) (hok : r.isOk = false) :
    ∃ e, r = failed e := by
  simp only [aggregateResult, Option.bind_eq_bind, Option.bind_eq_some_iff] at h
  obtain ⟨cs, -, h⟩ := h
  split at h
  · cases h
    exact ⟨_, rfl⟩
  · cases h
    rw [isOk_setBasicColumnLookup] at hok
    cases hok

/-- The order of a failed result has its error or another one. -/
theorem isOk_of_orderResult (h : orderResult texts r q = some r') (hok : r'.isOk = true) :
    r.isOk = true := by
  unfold orderResult at h
  split at h
  · cases h
    exact hok
  · split at h
    · cases h
      cases hok
    · simp only [Option.bind_eq_bind, Option.bind_eq_some_iff] at h
      obtain ⟨rows, -, h⟩ := h
      cases h
      exact hok

theorem isOk_limitResult : (limitResult r q).isOk = r.isOk := by
  unfold limitResult
  split
  · rfl
  · rfl

/-- No column is found in a result that has lost its error. -/
theorem orderResult_of_lost {e : QueryError} {condition : QueryCondition}
    (hhaving : q.havingCondition = some condition) (horder : q.orderByColumns ≠ [])
    (h : orderResult texts (havingResult texts (failed e) q) q = some r) : r.isOk = false := by
  have hlost : havingResult texts (failed e) q = {} := by
    unfold havingResult
    rw [hhaving]
    rfl
  obtain ⟨o, orders, hcons⟩ := List.exists_cons_of_ne_nil horder
  have hindexes : ∃ e', orderIndexes {} q.selectedColumns q.orderByColumns = .error e' := by
    rw [hcons, orderIndexes, orderByIndex]
    cases q.selectedColumns.find? fun s =>
        s.columnAlias ≠ "" ∧ s.columnAlias = o.column.columnName with
    | none => exact ⟨_, rfl⟩
    | some s => exact ⟨_, rfl⟩
  obtain ⟨e', he'⟩ := hindexes
  rw [hlost, orderResult, if_neg horder, he'] at h
  cases h
  rfl

/-! ## Success of every stage -/

variable (texts q) in
/-- `having_result` and `order_result` succeed after a stage that has. -/
def LaterStagesSucceed (grouped : QueryResult) : Prop :=
  grouped.isOk = true ∧ (havingResult texts grouped q).isOk = true ∧
    ∃ ordered, orderResult texts (havingResult texts grouped q) q = some ordered ∧
      ordered.isOk = true

variable (texts q) in
/-- Every stage behind the rows succeeds. -/
def StagesSucceed (rows : QueryResult) : Prop :=
  if q.groupByColumns ≠ [] then
    q.selectAll = false ∧
      ∃ grouped, groupedResult texts rows q = some grouped ∧ LaterStagesSucceed texts q grouped
  else if selectedHasAggregate q = true then
    ∃ aggregated, aggregateResult texts rows q.selectedColumns = some aggregated ∧
      LaterStagesSucceed texts q aggregated
  else
    q.havingCondition = none ∧
      ∃ ordered, orderResult texts rows q = some ordered ∧ ordered.isOk = true ∧
        (projectResult ordered q).isOk = true

variable (texts q) in
/-- The stage that groups or aggregates has an error. -/
def StageRefused (rows : QueryResult) : Prop :=
  if q.groupByColumns ≠ [] then q.selectAll = false ∧ GroupingRefused texts rows q
  else selectedHasAggregate q = true ∧ Meets (Refused rows) (Throws texts rows) q.selectedColumns

/-- The stages after grouping succeed where they keep the error of the group stage. -/
theorem laterStagesSucceed {grouped : QueryResult}
    (hfailed : grouped.isOk = false → ∃ e, grouped = failed e)
    (hkept : grouped.isOk = true ∨ q.havingCondition = none ∨ q.orderByColumns ≠ [])
    (horder : orderResult texts (havingResult texts grouped q) q = some r) (hok : r.isOk = true) :
    LaterStagesSucceed texts q grouped := by
  have hhaving := isOk_of_orderResult horder hok
  refine ⟨?_, hhaving, r, horder, hok⟩
  cases hcondition : q.havingCondition with
  | none =>
    rw [havingResult, hcondition] at hhaving
    exact hhaving
  | some condition =>
    by_contra hnot
    have hfalse : grouped.isOk = false := by simpa using hnot
    rcases hkept with hgrouped | hnone | horders
    · exact hnot hgrouped
    · rw [hcondition] at hnone
      cases hnone
    · obtain ⟨e, rfl⟩ := hfailed hfalse
      rw [orderResult_of_lost hcondition horders horder] at hok
      cases hok

theorem stagesSucceed_of_finishSelect {command : String}
    (hkept : q.havingCondition = none ∨ q.orderByColumns ≠ [] ∨ ¬ StageRefused texts q source)
    (h : finishSelect texts command q source = some r) (hok : r.isOk = true) :
    StagesSucceed texts q source := by
  unfold finishSelect at h
  unfold StagesSucceed
  unfold StageRefused at hkept
  split at h
  · rename_i hgroups
    rw [if_pos hgroups] at hkept ⊢
    split at h
    · cases h
      cases hok
    · rename_i hall
      have hall : q.selectAll = false := by simpa using hall
      simp only [Option.bind_eq_bind, Option.bind_eq_some_iff] at h
      obtain ⟨grouped, hgrouped, ordered, hordered, h⟩ := h
      cases h
      rw [isOk_limitResult] at hok
      refine ⟨hall, grouped, hgrouped, laterStagesSucceed (groupedResult_failed hgrouped) ?_
        hordered hok⟩
      rcases hkept with hnone | horders | hrefused
      · exact .inr (.inl hnone)
      · exact .inr (.inr horders)
      · left
        by_contra hnot
        refine hrefused ⟨hall, groupedResult_error.mp ⟨grouped, hgrouped, ?_⟩⟩
        simpa using hnot
  · rename_i hgroups
    rw [if_neg hgroups] at hkept ⊢
    split at h
    · rename_i haggregate
      rw [if_pos haggregate]
      simp only [Option.bind_eq_bind, Option.bind_eq_some_iff] at h
      obtain ⟨aggregated, haggregated, ordered, hordered, h⟩ := h
      cases h
      rw [isOk_limitResult] at hok
      refine ⟨aggregated, haggregated, laterStagesSucceed (aggregateResult_failed haggregated) ?_
        hordered hok⟩
      rcases hkept with hnone | horders | hrefused
      · exact .inr (.inl hnone)
      · exact .inr (.inr horders)
      · left
        by_contra hnot
        refine hrefused ⟨haggregate, aggregateResult_error.mp ⟨aggregated, haggregated, ?_⟩⟩
        simpa using hnot
    · rename_i haggregate
      rw [if_neg haggregate]
      split at h
      · cases h
        cases hok
      · rename_i hnone
        simp only [Option.bind_eq_bind, Option.bind_eq_some_iff] at h
        obtain ⟨ordered, hordered, h⟩ := h
        split at h
        · rename_i hfalse
          cases h
          rw [hfalse] at hok
          cases hok
        · rename_i hordered'
          cases h
          rw [isOk_limitResult] at hok
          exact ⟨hnone, ordered, hordered, by simpa using hordered', hok⟩

/-- Without `ORDER BY` a lost error is not found again. -/
theorem limit_of_lost {e : QueryError} {condition : QueryCondition}
    (hhaving : q.havingCondition = some condition) (horder : q.orderByColumns = []) :
    ∃ ordered, orderResult texts (havingResult texts (failed e) q) q = some ordered ∧
      (limitResult ordered q).isOk = true := by
  have hlost : havingResult texts (failed e) q = {} := by
    unfold havingResult
    rw [hhaving]
    rfl
  refine ⟨{}, ?_, isOk_limitResult⟩
  rw [hlost, orderResult, if_pos horder]
  rfl

theorem finishSelect_of_refused {command : String} {condition : QueryCondition}
    (hhaving : q.havingCondition = some condition) (horder : q.orderByColumns = [])
    (h : StageRefused texts q source) :
    (∃ r, finishSelect texts command q source = some r ∧ r.isOk = true) ∧
      ¬ StagesSucceed texts q source := by
  unfold StageRefused at h
  unfold StagesSucceed finishSelect
  split at h
  · rename_i hgroups
    obtain ⟨hall, hrefused⟩ := h
    obtain ⟨grouped, hgrouped, hfalse⟩ := groupedResult_error.mpr hrefused
    obtain ⟨e, rfl⟩ := groupedResult_failed hgrouped hfalse
    rw [if_pos hgroups, if_pos hgroups, hall, hgrouped]
    obtain ⟨ordered, hordered, hok⟩ := @limit_of_lost texts q e _ hhaving horder
    refine ⟨⟨limitResult ordered q, ?_, hok⟩, ?_⟩
    · simp only [Option.bind_eq_bind, Option.bind_some, hordered]
      rfl
    · rintro ⟨-, grouped, hsome, hok', -⟩
      cases hsome
      cases hok'
  · rename_i hgroups
    obtain ⟨haggregate, hrefused⟩ := h
    obtain ⟨aggregated, haggregated, hfalse⟩ := aggregateResult_error.mpr hrefused
    obtain ⟨e, rfl⟩ := aggregateResult_failed haggregated hfalse
    rw [if_neg hgroups, if_neg hgroups, if_pos haggregate, if_pos haggregate, haggregated]
    obtain ⟨ordered, hordered, hok⟩ := @limit_of_lost texts q e _ hhaving horder
    refine ⟨⟨limitResult ordered q, ?_, hok⟩, ?_⟩
    · simp only [Option.bind_eq_bind, Option.bind_some, hordered]
    · rintro ⟨aggregated, hsome, hok', -⟩
      cases hsome
      cases hok'

end Texts

/-! ## Whole queries -/

section Queries

variable (env : SelectEnv) (chain : ParsedQuery × Option Outer → Run QueryResult) (q : ParsedQuery)

/-- A result without error means that every stage has succeeded. -/
def ErrorsSurvive : Prop :=
  ∀ r, executeSelect env chain q = .ok r → r.isOk = true →
    ∃ rows, ReachStages env chain q rows ∧ StagesSucceed env.texts q rows

variable {env chain q}

/-- Errors survive unless the query has `HAVING` without `ORDER BY` and the stage that groups or
aggregates refuses the rows. -/
theorem errors_survive_iff (env : SelectEnv) (chain : ParsedQuery × Option Outer → Run QueryResult)
    (q : ParsedQuery) :
    ErrorsSurvive env chain q ↔
      q.havingCondition = none ∨ q.orderByColumns ≠ [] ∨
        ∀ rows, ReachStages env chain q rows → ¬ StageRefused env.texts q rows := by
  constructor
  · intro h
    cases hhaving : q.havingCondition with
    | none => exact .inl rfl
    | some condition =>
      by_cases horder : q.orderByColumns = []
      · refine .inr (.inr fun rows hrows hrefused => ?_)
        obtain ⟨⟨r, hfinish, hok⟩, hnot⟩ :=
          @finishSelect_of_refused env.texts rows q env.command condition hhaving horder hrefused
        obtain ⟨rows', hrows', hsucceed⟩ := h r (by rw [executeSelect_eq hrows, hfinish]; rfl) hok
        have hsame : rows' = rows := by
          obtain ⟨source, hsource, -, hwhere⟩ := hrows
          obtain ⟨source', hsource', -, hwhere'⟩ := hrows'
          cases hsource.symm.trans hsource'
          cases hwhere.symm.trans hwhere'
          rfl
        rw [hsame] at hsucceed
        exact hnot hsucceed
      · exact .inr (.inl horder)
  · intro h r hr hok
    obtain ⟨rows, hrows, hfinish⟩ := reachStages_of_ok hr hok
    refine ⟨rows, hrows, stagesSucceed_of_finishSelect ?_ hfinish hok⟩
    rcases h with hnone | horder | hrefused
    · exact .inl hnone
    · exact .inr (.inl horder)
    · exact .inr (.inr (hrefused rows hrows))

/-- `SELECT n, COUNT(*) FROM t GROUP BY nosuch HAVING COUNT(*) > 0`. -/
def groupedByUnknown : ParsedQuery :=
  { ParsedQuery.allOf "t" with
    selectAll := false
    selectedColumns := [{ columnName := "n" }, { columnName := "*", aggregate := .count }]
    groupByColumns := [{ columnName := "nosuch" }]
    havingCondition := some (.comparison (.aggregate .count "" "*" 0) .greater (.literal "0" 0)) }

/-- One table `t (n)`. -/
def numbersTable : SelectEnv := integerTables [⟨"t", ["n"], [[1], [2]]⟩] ""

/-- The error of `GROUP BY` is lost, and the result is empty. -/
theorem group_error_lost :
    ¬ ErrorsSurvive numbersTable (fun _ => .error .outOfFuel) groupedByUnknown := by
  intro h
  have hrefused : StageRefused integerTexts groupedByUnknown (selectAll numbersTable "t" "") := by
    refine ⟨rfl, .inl ⟨{ columnName := "nosuch" }, List.mem_singleton.mpr rfl, ?_⟩⟩
    rintro ⟨i, hi⟩
    have hunknown : resultColumnIndex (selectAll numbersTable "t" "") { columnName := "nosuch" } =
        .unknown := by decide
    rw [hunknown] at hi
    cases hi
  obtain ⟨⟨r, hfinish, hok⟩, hnot⟩ := @finishSelect_of_refused _ _ _ "" _ rfl rfl hrefused
  obtain ⟨rows, ⟨source, hsource, -, hwhere⟩, hsucceed⟩ := h r (by
    rw [executeSelect_eq ⟨selectAll numbersTable "t" "", rfl, rfl, rfl⟩]
    show orThrow (finishSelect integerTexts "" groupedByUnknown _) = _
    rw [hfinish]
    rfl) hok
  cases hsource
  cases hwhere
  exact hnot hsucceed

end Queries

end ScratchDb.Select
