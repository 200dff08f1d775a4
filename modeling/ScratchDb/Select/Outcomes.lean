import ScratchDb.Select.Calls

/-!
# Results in the place of values

Where a subquery or a condition fails, the functions of
`src/query/query_executor.cpp` hand the failed result on instead of a value. Such
a result is a new error or the failed result of a call, so what holds of both
holds of it.
-/

namespace ScratchDb.Select

open OpenRecursion

variable {f : ParsedQuery × Option Outer → Run QueryResult} {P : QueryResult → Prop}

theorem yields_pure {α : Type} {P : α → Prop} {a : α} (h : P a) : Run.Yields P (pure a) := by
  intro b hb
  cases hb
  exact h

theorem yields_orThrow {α : Type} {P : α → Prop} {x : Option α} (h : ∀ a, x = some a → P a) :
    (orThrow x).Yields P := by
  cases x with
  | none =>
    intro a ha
    cases ha
  | some a => exact yields_pure (h a rfl)

/-- A result in the place of a value satisfies `P`. -/
def ErrorOf {α : Type} (P : QueryResult → Prop) (x : Except QueryResult α) : Prop :=
  ∀ r, x = .error r → P r

theorem errorOf_ok {α : Type} (a : α) : ErrorOf P (.ok a : Except QueryResult α) := by
  intro r hr
  cases hr

theorem errorOf_error {α : Type} {r : QueryResult} (h : P r) :
    ErrorOf P (.error r : Except QueryResult α) := by
  intro r' hr
  cases hr
  exact h

/-! ## Subqueries and conditions -/

section Errors

variable {command : String} (hf : ∀ i, (f i).Yields fun r => r.isOk = false → P r)
  (hfailed : ∀ e, P (failed e))

include hf hfailed

theorem scalarSubqueryValue_errors (outer : Outer) (q : ParsedQuery) :
    (scalarSubqueryValue command f outer q).Yields (ErrorOf P) := by
  refine (hf _).bind fun r hr => ?_
  split
  · rename_i hok
    exact yields_pure (errorOf_error (hr hok))
  · split
    · exact yields_pure (errorOf_error (hfailed _))
    · split
      · exact yields_pure (errorOf_error (hfailed _))
      · exact yields_pure (errorOf_ok _)

theorem resolveSubqueries_errors (outer : Outer) (c : QueryCondition) :
    (resolveSubqueries command f outer c).Yields (ErrorOf P) := by
  induction c using QueryCondition.subqueries.induct with
  | case1 left op right =>
    cases right with
    | scalarSubquery text query position =>
      rw [resolveSubqueries]
      refine (scalarSubqueryValue_errors hf hfailed outer query).bind fun value hvalue => ?_
      cases value with
      | error r => exact yields_pure (errorOf_error (hvalue r rfl))
      | ok text => exact yields_pure (errorOf_ok _)
    | columnReference tableAlias name text position => exact yields_pure (errorOf_ok _)
    | aggregate function tableAlias name position => exact yields_pure (errorOf_ok _)
    | literal text position => exact yields_pure (errorOf_ok _)
  | case2 left test query =>
    rw [resolveSubqueries]
    refine (hf _).bind fun r hr => ?_
    split
    · rename_i hok
      exact yields_pure (errorOf_error (hr hok))
    · split
      · exact yields_pure (errorOf_error (hfailed _))
      · exact yields_pure (errorOf_ok _)
  | case3 left test values => exact yields_pure (errorOf_ok _)
  | case4 query =>
    rw [resolveSubqueries]
    refine (hf _).bind fun r hr => ?_
    split
    · rename_i hok
      exact yields_pure (errorOf_error (hr hok))
    · exact yields_pure (errorOf_ok _)
  | case5 result => exact yields_pure (errorOf_ok _)
  | case6 c ih =>
    rw [resolveSubqueries]
    refine ih.bind fun resolved hresolved => ?_
    cases resolved with
    | error r => exact yields_pure (errorOf_error (hresolved r rfl))
    | ok c => exact yields_pure (errorOf_ok _)
  | case7 left right ihl ihr =>
    rw [resolveSubqueries]
    refine ihl.bind fun resolved hresolved => ?_
    cases resolved with
    | error r => exact yields_pure (errorOf_error (hresolved r rfl))
    | ok left =>
      refine ihr.bind fun resolved hresolved => ?_
      cases resolved with
      | error r => exact yields_pure (errorOf_error (hresolved r rfl))
      | ok right => exact yields_pure (errorOf_ok _)
  | case8 left right ihl ihr =>
    rw [resolveSubqueries]
    refine ihl.bind fun resolved hresolved => ?_
    cases resolved with
    | error r => exact yields_pure (errorOf_error (hresolved r rfl))
    | ok left =>
      refine ihr.bind fun resolved hresolved => ?_
      cases resolved with
      | error r => exact yields_pure (errorOf_error (hresolved r rfl))
      | ok right => exact yields_pure (errorOf_ok _)

theorem filterRows_errors {texts : ValueTexts} (source : QueryResult) (c : QueryCondition)
    (rows : List (List String)) :
    (filterRows texts command f source c rows).Yields (ErrorOf P) := by
  induction rows with
  | nil => exact yields_pure (errorOf_ok _)
  | cons row rows ih =>
    rw [filterRows]
    refine (resolveSubqueries_errors hf hfailed _ c).bind fun resolved hresolved => ?_
    cases resolved with
    | error r => exact yields_pure (errorOf_error (hresolved r rfl))
    | ok resolved =>
      dsimp only
      cases resultRowMatches texts source row resolved with
      | error e => exact yields_pure (errorOf_error (hfailed _))
      | ok matched =>
        refine ih.bind fun kept hkept => ?_
        cases kept with
        | error r => exact yields_pure (errorOf_error (hkept r rfl))
        | ok kept => exact yields_pure (errorOf_ok _)

theorem whereRows_errors {texts : ValueTexts} (q : ParsedQuery) (source : QueryResult) :
    (whereRows texts command f q source).Yields (ErrorOf P) := by
  unfold whereRows
  split
  · exact yields_pure (errorOf_ok _)
  · refine (filterRows_errors hf hfailed source _ source.rows).bind fun kept hkept => ?_
    cases kept with
    | error r => exact yields_pure (errorOf_error (hkept r rfl))
    | ok kept => exact yields_pure (errorOf_ok _)

end Errors

/-! ## The rows behind WHERE -/

section Stages

variable {texts : ValueTexts} {command : String} {env : SelectEnv} {q : ParsedQuery}

theorem filterRows_sublist {source : QueryResult} {c : QueryCondition}
    {rows kept : List (List String)} (h : filterRows texts command f source c rows = .ok (.ok kept)) :
    kept.Sublist rows := by
  induction rows generalizing kept with
  | nil =>
    cases h
    exact List.Sublist.refl []
  | cons row rows ih =>
    rw [filterRows] at h
    cases hresolved : resolveSubqueries command f ⟨source, row⟩ c with
    | error e =>
      rw [hresolved] at h
      cases h
    | ok resolved =>
      rw [hresolved] at h
      cases resolved with
      | error r => cases h
      | ok resolved =>
        dsimp only [bind, Except.bind] at h
        split at h
        · cases h
        · rename_i matched hmatched
          cases hrest : filterRows texts command f source c rows with
          | error e =>
            rw [hrest] at h
            cases h
          | ok rest =>
            rw [hrest] at h
            cases rest with
            | error r => cases h
            | ok rest =>
              cases h
              split
              · exact (ih hrest).cons_cons row
              · exact (ih hrest).cons row

/-- The rows that `HAVING` keeps. -/
theorem keptRows_sublist {source : QueryResult} {condition : QueryCondition} {rows kept : List (List String)}
    (h : keptRows texts source condition rows = .ok kept) : kept.Sublist rows := by
  induction rows generalizing kept with
  | nil =>
    cases h
    exact List.Sublist.refl []
  | cons row rows ih =>
    rw [keptRows] at h
    cases hmatched : resultRowMatches texts source row condition with
    | error e =>
      rw [hmatched] at h
      cases h
    | ok matched =>
      cases hrest : keptRows texts source condition rows with
      | error e =>
        rw [hmatched, hrest] at h
        cases h
      | ok rest =>
        rw [hmatched, hrest] at h
        cases h
        split
        · exact (ih hrest).cons_cons row
        · exact (ih hrest).cons row

/-- The rows that reach the stages behind `WHERE`. -/
def ReachStages (env : SelectEnv) (chain : ParsedQuery × Option Outer → Run QueryResult)
    (q : ParsedQuery) (rows : QueryResult) : Prop :=
  ∃ source, executeRowSource env chain q = .ok source ∧ source.isOk = true ∧
    whereRows env.texts env.command chain q source = .ok (.ok rows)

/-- They are the rows of the source or some of them. -/
theorem whereRows_ok {source rows : QueryResult}
    (h : whereRows texts command f q source = .ok (.ok rows)) :
    rows = source ∨ ∃ kept, kept.Sublist source.rows ∧
      rows = { columns := source.columns, rows := kept, rowCount := kept.length,
               columnPositions := source.columnPositions,
               ambiguousColumns := source.ambiguousColumns } := by
  unfold whereRows at h
  split at h
  · cases h
    exact .inl rfl
  · rename_i c _
    cases hkept : filterRows texts command f source c source.rows with
    | error e =>
      rw [hkept] at h
      cases h
    | ok kept =>
      rw [hkept] at h
      cases kept with
      | error r => cases h
      | ok kept =>
        cases h
        exact .inr ⟨kept, filterRows_sublist hkept, rfl⟩

/-- The stages start from one result. -/
theorem executeSelect_eq {rows : QueryResult} (h : ReachStages env f q rows) :
    executeSelect env f q = orThrow (finishSelect env.texts env.command q rows) := by
  obtain ⟨source, hsource, hok, hrows⟩ := h
  rw [executeSelect, hsource]
  show (if source.isOk = false then _ else _) = _
  rw [if_neg (by rw [hok]; decide), hrows]
  rfl

theorem reachStages_of_ok {r : QueryResult} (h : executeSelect env f q = .ok r)
    (hok : r.isOk = true) :
    ∃ rows, ReachStages env f q rows ∧ finishSelect env.texts env.command q rows = some r := by
  rw [executeSelect] at h
  cases hsource : executeRowSource env f q with
  | error e =>
    rw [hsource] at h
    cases h
  | ok source =>
    rw [hsource] at h
    change (if source.isOk = false then _ else _) = _ at h
    split at h
    · rename_i hfalse
      cases h
      rw [hfalse] at hok
      cases hok
    · rename_i hsourceOk
      cases hwhere : whereRows env.texts env.command f q source with
      | error e =>
        rw [hwhere] at h
        cases h
      | ok kept =>
        rw [hwhere] at h
        cases kept with
        | error result =>
          cases h
          -- the result of `WHERE` is a failed one
          have hfailed := whereRows_errors (P := fun r => r.isOk = false) (fun i r _ hr => hr)
            (fun e => rfl) q source _ hwhere r rfl
          rw [hfailed] at hok
          cases hok
        | ok rows =>
          refine ⟨rows, ⟨source, hsource, by simpa using hsourceOk, hwhere⟩, ?_⟩
          change orThrow (finishSelect env.texts env.command q rows) = .ok r at h
          cases hfinish : finishSelect env.texts env.command q rows with
          | none =>
            rw [hfinish] at h
            cases h
          | some r' =>
            rw [hfinish] at h
            cases h
            rfl

end Stages

/-! ## What queries keep -/

/-- A property of results that everything but the stages behind `WHERE` keeps. -/
structure KeptByQueries (env : SelectEnv) (P : QueryResult → Prop) : Prop where
  failed : ∀ e, P (failed e)
  selectAll : ∀ tableName tableAlias, P (selectAll env tableName tableAlias)
  joined : ∀ {tableName tableAlias joins r},
    executeJoin env tableName tableAlias joins = some r → P r
  renamed : ∀ {r} tableName tableAlias, P r → P (renamed r tableName tableAlias)
  kept : ∀ {r : QueryResult} {rows}, P r → rows.Sublist r.rows →
    P { columns := r.columns, rows, rowCount := rows.length,
        columnPositions := r.columnPositions, ambiguousColumns := r.ambiguousColumns }
  union : ∀ {left right} quantifier, P left → P right → compatibleColumns left right = true →
    P (unionResults left right quantifier)
  intersect : ∀ {left right} quantifier, P left → P right → compatibleColumns left right = true →
    P (intersectResults left right quantifier)

section Kept

variable {env : SelectEnv} (h : KeptByQueries env P) (hf : ∀ i, (f i).Yields P)

include h hf

theorem executeRowSource_keeps (q : ParsedQuery) : (executeRowSource env f q).Yields P := by
  unfold executeRowSource
  split
  · refine (hf _).bind fun r hr => ?_
    split
    · exact yields_pure hr
    · split
      · exact yields_pure (h.failed _)
      · exact yields_pure (h.renamed _ _ hr)
  · split
    · refine (hf _).bind fun r hr => ?_
      split
      · exact yields_pure hr
      · exact yields_pure (h.renamed _ _ hr)
    · split
      · exact yields_pure (h.selectAll _ _)
      · exact yields_orThrow fun r hr => h.joined hr

theorem reachStages_keeps {q : ParsedQuery} {rows : QueryResult} (hrows : ReachStages env f q rows) :
    P rows := by
  obtain ⟨source, hsource, -, hwhere⟩ := hrows
  have hkeeps := executeRowSource_keeps h hf q source hsource
  rcases whereRows_ok hwhere with rfl | ⟨kept, hsub, rfl⟩
  · exact hkeeps
  · exact h.kept hkeeps hsub

theorem executeSelect_keeps {q : ParsedQuery}
    (hfinish : ∀ rows r, ReachStages env f q rows → P rows →
      finishSelect env.texts env.command q rows = some r → P r) :
    (executeSelect env f q).Yields P := by
  intro r hr
  rw [executeSelect] at hr
  cases hsource : executeRowSource env f q with
  | error e =>
    rw [hsource] at hr
    cases hr
  | ok source =>
    have hkeeps := executeRowSource_keeps h hf q source hsource
    rw [hsource] at hr
    change (if source.isOk = false then _ else _) = _ at hr
    split at hr
    · cases hr
      exact hkeeps
    · rename_i hok
      cases hwhere : whereRows env.texts env.command f q source with
      | error e =>
        rw [hwhere] at hr
        cases hr
      | ok kept =>
        rw [hwhere] at hr
        cases kept with
        | error result =>
          cases hr
          exact whereRows_errors (fun i r hr _ => hf i r hr) h.failed q source _ hwhere r rfl
        | ok rows =>
          have hreach : ReachStages env f q rows := ⟨source, hsource, by simpa using hok, hwhere⟩
          refine yields_orThrow (fun a ha => ?_) r hr
          exact hfinish rows a hreach (reachStages_keeps h hf hreach) ha

omit hf in
theorem combineParts_keeps {parts : List QueryCompound}
    (hparts : ∀ part ∈ parts, (executeSelect env f part.query).Yields P) {r : QueryResult}
    (hr : P r) : (combineParts env f r parts).Yields P := by
  induction parts generalizing r with
  | nil => exact yields_pure hr
  | cons part parts ih =>
    have hrest : ∀ p ∈ parts, (executeSelect env f p.query).Yields P :=
      fun p hp => hparts p (List.mem_cons_of_mem part hp)
    rw [combineParts]
    refine (hparts part List.mem_cons_self).bind fun right hright => ?_
    split
    · exact yields_pure hright
    · split
      · exact yields_pure (h.failed _)
      · rename_i hcompatible
        have hcompatible : compatibleColumns r right = true := by simpa using hcompatible
        cases part.operator with
        | unionOp => exact ih hrest (h.union _ hr hright hcompatible)
        | intersectOp => exact ih hrest (h.intersect _ hr hright hcompatible)

/-- One call keeps the property where the stages of its parts keep it. -/
theorem chainStep_keeps {q : ParsedQuery} {outer : Option Outer}
    (hfinish : ∀ p ∈ (preparedQuery q outer).parts, ∀ rows r, ReachStages env f p rows → P rows →
      finishSelect env.texts env.command p rows = some r → P r) :
    (chainStep env f (q, outer)).Yields P := by
  refine (executeSelect_keeps h hf (hfinish _ List.mem_cons_self)).bind fun result hresult => ?_
  split
  · exact yields_pure hresult
  · refine combineParts_keeps h (fun part hpart => ?_) hresult
    exact executeSelect_keeps h hf
      (hfinish _ (List.mem_cons_of_mem _ (List.mem_map.mpr ⟨part, hpart, rfl⟩)))

end Kept

end ScratchDb.Select
