import ScratchDb.Select.ColumnLookups
import ScratchDb.Select.Outcomes

/-!
# Row counts

Every stage sets the row count of its result to the number of its rows, and the
results of queries have the row count of a table with these rows.
-/

namespace ScratchDb.Select

open OpenRecursion

def QueryResult.Counted (r : QueryResult) : Prop := r.rowCount = r.rows.length

theorem counted_failed (e : QueryError) : (failed e).Counted := rfl

/-- Lookups change neither the rows nor their count. -/
theorem SameData.counted {r r' : QueryResult} (hsame : SameData r r') (h : r.Counted) : r'.Counted := by
  rw [QueryResult.Counted, hsame.rowCount, hsame.rows, h]

/-! ## Row sources -/

theorem counted_selectAll (env : SelectEnv) (tableName tableAlias : String) :
    (selectAll env tableName tableAlias).Counted := by
  unfold selectAll
  split
  · exact counted_failed _
  · dsimp only
    split
    · refine (sameData_setTableColumnLookup _ _ _).counted ?_
      simp [QueryResult.Counted]
    · exact counted_failed _

theorem counted_executeJoin {env : SelectEnv} {tableName tableAlias : String}
    {joins : List QueryJoin} {r : QueryResult}
    (h : executeJoin env tableName tableAlias joins = some r) : r.Counted := by
  unfold executeJoin at h
  split at h
  · cases h
    exact counted_failed _
  · split at h
    · cases h
    · cases h
      exact counted_failed _
    · cases h
      refine (sameData_setJoinColumnLookup _ _).counted ?_
      simp [QueryResult.Counted]

theorem counted_renamed {r : QueryResult} (tableName tableAlias : String) (h : r.Counted) :
    (renamed r tableName tableAlias).Counted :=
  (sameData_setTableColumnLookup _ _ _).counted h

section Texts

variable {texts : ValueTexts} {q : ParsedQuery} {r r' : QueryResult}

/-! ## Stages -/

theorem counted_projectResult (h : r.Counted) : (projectResult r q).Counted := by
  unfold projectResult
  split
  · exact h
  · split
    · exact counted_failed _
    · refine (sameData_setBasicColumnLookup _).counted ?_
      simp [QueryResult.Counted]

theorem counted_limitResult (h : r.Counted) : (limitResult r q).Counted := by
  unfold limitResult
  split
  · exact h
  · rfl

theorem counted_havingResult (h : r.Counted) : (havingResult texts r q).Counted := by
  unfold havingResult
  split
  · exact h
  · split
    · exact counted_failed _
    · rfl

theorem length_insertRow {less : List String → List String → Option Bool} {row : List String}
    {rows sorted : List (List String)} (h : insertRow less row rows = some sorted) :
    sorted.length = rows.length + 1 := by
  induction rows generalizing sorted with
  | nil =>
    cases h
    rfl
  | cons r rows ih =>
    simp only [insertRow, Option.bind_eq_bind, Option.bind_eq_some_iff] at h
    obtain ⟨first, -, h⟩ := h
    split at h
    · simp only [Option.bind_eq_some_iff] at h
      obtain ⟨rest, hrest, h⟩ := h
      cases h
      rw [List.length_cons, ih hrest, List.length_cons]
    · cases h
      rfl

theorem length_stableSort {less : List String → List String → Option Bool}
    {rows sorted : List (List String)} (h : stableSort less rows = some sorted) :
    sorted.length = rows.length := by
  induction rows generalizing sorted with
  | nil =>
    cases h
    rfl
  | cons row rows ih =>
    simp only [stableSort, Option.bind_eq_bind, Option.bind_eq_some_iff] at h
    obtain ⟨rest, hrest, h⟩ := h
    rw [length_insertRow h, ih hrest, List.length_cons]

theorem counted_orderResult (h : r.Counted) (ho : orderResult texts r q = some r') :
    r'.Counted := by
  unfold orderResult at ho
  split at ho
  · cases ho
    exact h
  · split at ho
    · cases ho
      exact counted_failed _
    · simp only [Option.bind_eq_bind, Option.bind_eq_some_iff] at ho
      obtain ⟨rows, hsort, ho⟩ := ho
      cases ho
      show r.rowCount = rows.length
      rw [length_stableSort hsort, h]

theorem counted_aggregateResult {selected : List SelectedColumn}
    (h : aggregateResult texts r selected = some r') : r'.Counted := by
  simp only [aggregateResult, Option.bind_eq_bind, Option.bind_eq_some_iff] at h
  obtain ⟨cs, -, h⟩ := h
  split at h
  · cases h
    exact counted_failed _
  · cases h
    exact (sameData_setBasicColumnLookup _).counted rfl

theorem counted_groupedResult (h : groupedResult texts r q = some r') : r'.Counted := by
  unfold groupedResult at h
  split at h
  · cases h
    exact counted_failed _
  · split at h
    · cases h
      exact counted_failed _
    · split at h
      · cases h
        exact counted_failed _
      · simp only [Option.bind_eq_bind, Option.bind_eq_some_iff] at h
        obtain ⟨rows, -, h⟩ := h
        split at h
        · cases h
          exact counted_failed _
        · cases h
          exact (sameData_setBasicColumnLookup _).counted rfl

theorem counted_finishSelect {command : String} (h : r.Counted)
    (hf : finishSelect texts command q r = some r') : r'.Counted := by
  unfold finishSelect at hf
  split at hf
  · split at hf
    · cases hf
      exact counted_failed _
    · simp only [Option.bind_eq_bind, Option.bind_eq_some_iff] at hf
      obtain ⟨grouped, hgrouped, ordered, hordered, hf⟩ := hf
      cases hf
      exact counted_limitResult
        (counted_orderResult (counted_havingResult (counted_groupedResult hgrouped)) hordered)
  · split at hf
    · simp only [Option.bind_eq_bind, Option.bind_eq_some_iff] at hf
      obtain ⟨aggregated, haggregated, ordered, hordered, hf⟩ := hf
      cases hf
      exact counted_limitResult
        (counted_orderResult (counted_havingResult (counted_aggregateResult haggregated)) hordered)
    · split at hf
      · cases hf
        exact counted_failed _
      · simp only [Option.bind_eq_bind, Option.bind_eq_some_iff] at hf
        obtain ⟨ordered, hordered, hf⟩ := hf
        have hcounted := counted_orderResult h hordered
        split at hf
        · cases hf
          exact hcounted
        · cases hf
          exact counted_limitResult (counted_projectResult hcounted)

end Texts

/-! ## Queries -/

section Runs

variable {env : SelectEnv}

theorem counted_keptByQueries (env : SelectEnv) : KeptByQueries env QueryResult.Counted where
  failed := counted_failed
  selectAll := counted_selectAll env
  joined := counted_executeJoin
  renamed tableName tableAlias := counted_renamed tableName tableAlias
  kept _ _ := rfl
  union _ _ _ _ := rfl
  intersect _ _ _ _ := rfl

/-- A query returns a result with the number of its rows. -/
theorem executeSelectChain_counted {fuel : Nat} {query : ParsedQuery} {outer : Option Outer}
    {r : QueryResult} (h : executeSelectChain env fuel query outer = .ok r) : r.Counted := by
  refine iterate_yields (fun f hf i => ?_) fuel (query, outer) r h
  exact chainStep_keeps (counted_keptByQueries env) hf fun p _ rows r _ hrows =>
    counted_finishSelect hrows

end Runs

end ScratchDb.Select
