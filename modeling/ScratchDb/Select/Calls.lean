import ScratchDb.Select.Execution

/-!
# The calls of a query

A step of `execute_select_chain` depends on its calls only through what they
return: a relation that sequencing keeps carries over from the calls to the
step. What a query calls is read off its text, and references to an outer row
do not change it.
-/

namespace ScratchDb.Select

open OpenRecursion

variable {env : SelectEnv} {texts : ValueTexts} {command : String}
  {f g : ParsedQuery × Option Outer → Run QueryResult} {R : ∀ {α : Type}, Run α → Run α → Prop}

/-! ## A step and its calls -/

section Congruence

theorem orThrow_ends {α : Type} (x : Option α) : (orThrow x).Ends := by
  cases x with
  | none =>
    intro h
    cases h
  | some a =>
    intro h
    cases h

theorem pure_rel {α : Type} (hR : Congruence R) (a : α) : R (pure a) (pure a) := hR.ok a

theorem scalarSubqueryValue_rel (hR : Congruence R) {outer : Outer} {q : ParsedQuery}
    (h : R (f (q, some outer)) (g (q, some outer))) :
    R (scalarSubqueryValue command f outer q) (scalarSubqueryValue command g outer q) := by
  refine hR.bind h fun result => ?_
  split
  · exact pure_rel hR _
  · split
    · exact pure_rel hR _
    · split
      · exact pure_rel hR _
      · exact pure_rel hR _

theorem resolveSubqueries_rel (hR : Congruence R) {outer : Outer} {c : QueryCondition}
    (h : ∀ q ∈ c.subqueries, R (f (q, some outer)) (g (q, some outer))) :
    R (resolveSubqueries command f outer c) (resolveSubqueries command g outer c) := by
  induction c using QueryCondition.subqueries.induct with
  | case1 left op right =>
    cases right with
    | scalarSubquery text query position =>
      rw [resolveSubqueries, resolveSubqueries]
      refine hR.bind (scalarSubqueryValue_rel hR (h query List.mem_cons_self)) fun value => ?_
      cases value with
      | error result => exact pure_rel hR _
      | ok text => exact pure_rel hR _
    | columnReference tableAlias name text position => exact pure_rel hR _
    | aggregate function tableAlias name position => exact pure_rel hR _
    | literal text position => exact pure_rel hR _
  | case2 left test query =>
    rw [resolveSubqueries, resolveSubqueries]
    refine hR.bind (h query List.mem_cons_self) fun result => ?_
    split
    · exact pure_rel hR _
    · split
      · exact pure_rel hR _
      · exact pure_rel hR _
  | case3 left test values => exact pure_rel hR _
  | case4 query =>
    rw [resolveSubqueries, resolveSubqueries]
    refine hR.bind (h query List.mem_cons_self) fun result => ?_
    split
    · exact pure_rel hR _
    · exact pure_rel hR _
  | case5 result => exact pure_rel hR _
  | case6 c ih =>
    rw [resolveSubqueries, resolveSubqueries]
    refine hR.bind (ih h) fun resolved => ?_
    cases resolved with
    | error result => exact pure_rel hR _
    | ok c => exact pure_rel hR _
  | case7 left right ihl ihr =>
    rw [resolveSubqueries, resolveSubqueries]
    simp only [QueryCondition.subqueries, List.mem_append] at h
    refine hR.bind (ihl fun q hq => h q (.inl hq)) fun resolved => ?_
    cases resolved with
    | error result => exact pure_rel hR _
    | ok left =>
      refine hR.bind (ihr fun q hq => h q (.inr hq)) fun resolved => ?_
      cases resolved with
      | error result => exact pure_rel hR _
      | ok right => exact pure_rel hR _
  | case8 left right ihl ihr =>
    rw [resolveSubqueries, resolveSubqueries]
    simp only [QueryCondition.subqueries, List.mem_append] at h
    refine hR.bind (ihl fun q hq => h q (.inl hq)) fun resolved => ?_
    cases resolved with
    | error result => exact pure_rel hR _
    | ok left =>
      refine hR.bind (ihr fun q hq => h q (.inr hq)) fun resolved => ?_
      cases resolved with
      | error result => exact pure_rel hR _
      | ok right => exact pure_rel hR _

theorem filterRows_rel (hR : Congruence R) {source : QueryResult} {c : QueryCondition}
    (h : ∀ q ∈ c.subqueries, ∀ outer, R (f (q, some outer)) (g (q, some outer)))
    (rows : List (List String)) :
    R (filterRows texts command f source c rows) (filterRows texts command g source c rows) := by
  induction rows with
  | nil => exact pure_rel hR _
  | cons row rows ih =>
    rw [filterRows, filterRows]
    refine hR.bind (resolveSubqueries_rel hR fun q hq => h q hq _) fun resolved => ?_
    cases resolved with
    | error result => exact pure_rel hR _
    | ok resolved =>
      dsimp only
      cases resultRowMatches texts source row resolved with
      | error e => exact pure_rel hR _
      | ok matched =>
        refine hR.bind ih fun kept => ?_
        cases kept with
        | error result => exact pure_rel hR _
        | ok kept => exact pure_rel hR _

theorem whereRows_rel (hR : Congruence R) {q : ParsedQuery} (rows : QueryResult)
    (h : ∀ s ∈ q.whereSubqueries, ∀ outer, R (f (s, some outer)) (g (s, some outer))) :
    R (whereRows texts command f q rows) (whereRows texts command g q rows) := by
  unfold whereRows
  unfold ParsedQuery.whereSubqueries at h
  cases hc : q.condition with
  | none => exact pure_rel hR _
  | some condition =>
    rw [hc] at h
    refine hR.bind (filterRows_rel hR h rows.rows) fun kept => ?_
    cases kept with
    | error result => exact pure_rel hR _
    | ok kept => exact pure_rel hR _

theorem executeRowSource_rel (hR : Congruence R) {q : ParsedQuery}
    (h : ∀ s ∈ q.sourceQuery, R (f (s, none)) (g (s, none))) :
    R (executeRowSource env f q) (executeRowSource env g q) := by
  unfold executeRowSource
  unfold ParsedQuery.sourceQuery at h
  cases hd : q.derivedTable with
  | some d =>
    rw [hd] at h
    refine hR.bind (h _ rfl) fun result => ?_
    split
    · exact pure_rel hR _
    · split
      · exact pure_rel hR _
      · exact pure_rel hR _
  | none =>
    rw [hd] at h
    cases hn : q.namedExpression with
    | some c =>
      rw [hn] at h
      refine hR.bind (h _ rfl) fun result => ?_
      split
      · exact pure_rel hR _
      · exact pure_rel hR _
    | none =>
      dsimp only
      cases q.joins with
      | nil => exact pure_rel hR _
      | cons j joins => exact hR.refl (orThrow_ends _)

/-- What `execute_select` calls. -/
def ParsedQuery.Calls (q s : ParsedQuery) : Prop := s ∈ q.sourceQuery ∨ s ∈ q.whereSubqueries

theorem executeSelect_rel (hR : Congruence R) {q : ParsedQuery}
    (h : ∀ s, q.Calls s → ∀ outer, R (f (s, outer)) (g (s, outer))) :
    R (executeSelect env f q) (executeSelect env g q) := by
  unfold executeSelect
  refine hR.bind (executeRowSource_rel hR fun s hs => h s (.inl hs) none) fun rows => ?_
  split
  · exact pure_rel hR _
  · refine hR.bind (whereRows_rel hR rows fun s hs outer => h s (.inr hs) outer) fun kept => ?_
    cases kept with
    | error result => exact pure_rel hR _
    | ok rows => exact hR.refl (orThrow_ends _)

theorem combineParts_rel (hR : Congruence R) {parts : List QueryCompound} (result : QueryResult)
    (h : ∀ p ∈ parts, ∀ s, p.query.Calls s → ∀ outer, R (f (s, outer)) (g (s, outer))) :
    R (combineParts env f result parts) (combineParts env g result parts) := by
  induction parts generalizing result with
  | nil => exact pure_rel hR _
  | cons part parts ih =>
    have hparts := fun p (hp : p ∈ parts) => h p (List.mem_cons_of_mem part hp)
    rw [combineParts, combineParts]
    refine hR.bind (executeSelect_rel hR (h part List.mem_cons_self)) fun right => ?_
    split
    · exact pure_rel hR _
    · split
      · exact pure_rel hR _
      · cases part.operator with
        | unionOp => exact ih _ hparts
        | intersectOp => exact ih _ hparts

/-- A query and the parts that follow it. -/
def ParsedQuery.parts (q : ParsedQuery) : List ParsedQuery := q :: q.compounds.map (·.query)

theorem chainStep_rel (hR : Congruence R) {q : ParsedQuery} {outer : Option Outer}
    (h : ∀ p ∈ (preparedQuery q outer).parts, ∀ s, p.Calls s →
      ∀ outer, R (f (s, outer)) (g (s, outer))) :
    R (chainStep env f (q, outer)) (chainStep env g (q, outer)) := by
  refine hR.bind (executeSelect_rel hR (h _ List.mem_cons_self)) fun result => ?_
  split
  · exact pure_rel hR _
  · exact combineParts_rel hR result fun p hp =>
      h p.query (List.mem_cons_of_mem _ (List.mem_map_of_mem hp))

/-- A call sees the outer row only in the query that it prepares. -/
theorem chainStep_prepared (q : ParsedQuery) (outer : Option Outer) :
    chainStep env f (q, outer) = chainStep env f (preparedQuery q outer, none) := rfl

/-- More fuel gives the same result. -/
theorem chainStep_mono (f g : ParsedQuery × Option Outer → Run QueryResult)
    (h : ∀ i, Approx (f i) (g i)) (i : ParsedQuery × Option Outer) :
    Approx (chainStep env f i) (chainStep env g i) := by
  obtain ⟨q, outer⟩ := i
  exact chainStep_rel congruence_approx fun p _ s _ outer => h (s, outer)

end Congruence

/-! ## Calls of a prepared query -/

theorem subqueries_replaceExpression (outer : Outer) (e : QueryExpression) :
    (replaceExpression outer e).subqueries = e.subqueries := by
  cases e with
  | columnReference tableAlias name text position =>
    rw [replaceExpression]
    split
    · rfl
    · rfl
  | aggregate function tableAlias name position => rfl
  | literal text position => rfl
  | scalarSubquery text query position => rfl

theorem subqueries_normalizeColumnLeft (left : QueryExpression) (op : QueryOperator)
    (right : QueryExpression) : (normalizeColumnLeft left op right).subqueries = right.subqueries := by
  unfold normalizeColumnLeft
  split
  · rfl
  · rfl

theorem subqueries_replaceCondition (outer : Outer) (c : QueryCondition) :
    (replaceCondition outer c).subqueries = c.subqueries := by
  induction c using replaceCondition.induct with
  | case1 left op right =>
    rw [replaceCondition, subqueries_normalizeColumnLeft, subqueries_replaceExpression]
    rfl
  | case2 left test query => rfl
  | case3 left test values => rfl
  | case4 query => rfl
  | case5 result => rfl
  | case6 c ih => exact ih
  | case7 left right ihl ihr =>
    rw [replaceCondition, QueryCondition.subqueries, QueryCondition.subqueries, ihl, ihr]
  | case8 left right ihl ihr =>
    rw [replaceCondition, QueryCondition.subqueries, QueryCondition.subqueries, ihl, ihr]

section Prepared

variable (outer : Outer) (q : ParsedQuery)

theorem whereSubqueries_replace :
    (replaceOuterReferences outer q).whereSubqueries = q.whereSubqueries := by
  rw [replaceOuterReferences_eq, ParsedQuery.whereSubqueries, ParsedQuery.whereSubqueries]
  cases q.condition with
  | none => rfl
  | some c => exact subqueries_replaceCondition outer c

/-- A derived table is prepared with its query, the expressions of `WITH` are not. -/
theorem sourceQuery_replace :
    (replaceOuterReferences outer q).sourceQuery = q.sourceQuery ∨
      (replaceOuterReferences outer q).sourceQuery =
        q.sourceQuery.map (replaceOuterReferences outer) := by
  rw [replaceOuterReferences_eq, ParsedQuery.sourceQuery, ParsedQuery.sourceQuery]
  cases q.derivedTable with
  | none => exact .inl rfl
  | some d =>
    refine .inr ?_
    simp [replaceOuterReferences_eq outer d, replaceOuterReferences_eq outer
      { d with commonTableExpressions := q.commonTableExpressions }]

theorem compound_replace :
    (replaceOuterReferences outer q).compound =
      q.compound.map fun c => { c with query := replaceOuterReferences outer c.query } := by
  rw [replaceOuterReferences_eq]

theorem compounds_replace :
    (replaceOuterReferences outer q).compounds =
      q.compounds.map fun c => { c with query := replaceOuterReferences outer c.query } := by
  induction q using ParsedQuery.compounds.induct with
  | case1 =>
    rw [ParsedQuery.compounds_of_none (by rw [compound_replace]; rfl), ParsedQuery.compounds]
    rfl
  | case2 tableName tableAlias derived all selected groups orders condition having ctes joins operator
      quantifier q limit ih =>
    rw [ParsedQuery.compounds_of_some (by rw [compound_replace]; rfl), ParsedQuery.compounds,
      List.map_cons, ih]

theorem parts_replace :
    (replaceOuterReferences outer q).parts = q.parts.map (replaceOuterReferences outer) := by
  rw [ParsedQuery.parts, ParsedQuery.parts, compounds_replace, List.map_cons, List.map_map,
    List.map_map]
  rfl

/-- A prepared query calls what the query calls, prepared or as it is. -/
theorem calls_replace {s : ParsedQuery} (h : (replaceOuterReferences outer q).Calls s) :
    ∃ s', q.Calls s' ∧ (s = s' ∨ s = replaceOuterReferences outer s') := by
  rcases h with h | h
  · rcases sourceQuery_replace outer q with heq | heq
    · rw [heq] at h
      exact ⟨s, .inl h, .inl rfl⟩
    · rw [heq, Option.mem_map] at h
      obtain ⟨s', hs', rfl⟩ := h
      exact ⟨s', .inl hs', .inr rfl⟩
  · rw [whereSubqueries_replace] at h
    exact ⟨s, .inr h, .inl rfl⟩

end Prepared

end ScratchDb.Select
