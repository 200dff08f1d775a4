import ScratchDb.Select.RowCounts
import ScratchDb.Select.Termination

/-!
# Subqueries in `FROM` and stored tables

A derived table or an expression of the `WITH` list in `FROM` is compared with a
stored table that holds its rows under the same name. Only the row source of the
query itself uses it: joins are not executed behind it, and the compound parts and
the subqueries of `WHERE` look for a stored table of that name.
-/

namespace ScratchDb.Select

open OpenRecursion

/-! ## Tables that a query reads -/

namespace ParsedQuery

/-- `FROM` reads the stored table, itself or in a join. -/
def ReadsTable (q : ParsedQuery) (name : String) : Prop :=
  q.sourceQuery = none ∧ (q.tableName = name ∨ ∃ j ∈ q.joins, j.tableName = name)

/-- No query that may be reached reads the stored table. -/
def Avoids (q : ParsedQuery) (name : String) : Prop := ∀ s, q.Reaches s → ¬ s.ReadsTable name

variable {q s : ParsedQuery} {name : String}

theorem Avoids.of_reaches (h : q.Avoids name) (hs : q.Reaches s) : s.Avoids name :=
  fun t ht => h t (hs.trans ht)

theorem Avoids.of_calls (h : q.Avoids name) (hs : q.Calls s) : s.Avoids name :=
  h.of_reaches (.call .refl hs)

theorem reaches_of_mem_compounds {c : QueryCompound} (h : c ∈ q.compounds) : q.Reaches c.query := by
  induction q using ParsedQuery.compounds.induct with
  | case1 =>
    rw [compounds] at h
    cases h
  | case2 tableName tableAlias derived all selected groups orders condition having ctes joins operator
      quantifier query limit ih =>
    rw [compounds, List.mem_cons] at h
    have hpart : Reaches ⟨tableName, tableAlias, derived, all, selected, groups, orders, condition,
        having, ctes, joins, some ⟨operator, quantifier, query⟩, limit⟩ query :=
      @Reaches.part _ _ ⟨operator, quantifier, query⟩ .refl rfl
    rcases h with rfl | h
    · exact hpart
    · exact hpart.trans (ih h)

theorem readsTable_replace {outer : Outer} (h : (replaceOuterReferences outer q).ReadsTable name) :
    q.ReadsTable name := by
  obtain ⟨hnone, hread⟩ := h
  constructor
  · rcases sourceQuery_replace outer q with heq | heq
    · rw [← heq, hnone]
    · rw [heq, Option.map_eq_none_iff] at hnone
      exact hnone
  · rw [replaceOuterReferences_eq] at hread
    rcases hread with hname | ⟨j, hj, hname⟩
    · exact .inl hname
    · obtain ⟨j', hj', rfl⟩ := List.mem_map.mp hj
      exact .inr ⟨j', hj', hname⟩

/-- What a prepared query may reach the query reaches, up to references to the outer row. -/
theorem reaches_replace {outer : Outer} (h : (replaceOuterReferences outer q).Reaches s) :
    ∃ s', q.Reaches s' ∧ (s = s' ∨ s = replaceOuterReferences outer s') := by
  induction h with
  | refl => exact ⟨q, .refl, .inr rfl⟩
  | call _ hcall ih =>
    obtain ⟨p, hp, rfl | rfl⟩ := ih
    · exact ⟨_, .call hp hcall, .inl rfl⟩
    · obtain ⟨s', hs', heq⟩ := calls_replace outer p hcall
      exact ⟨s', .call hp hs', heq⟩
  | part _ hc ih =>
    obtain ⟨p, hp, rfl | rfl⟩ := ih
    · exact ⟨_, .part hp hc, .inl rfl⟩
    · rw [compound_replace, Option.map_eq_some_iff] at hc
      obtain ⟨c', hc', rfl⟩ := hc
      exact ⟨c'.query, .part hp hc', .inr rfl⟩

theorem avoids_prepared (h : q.Avoids name) (outer : Option Outer) :
    (preparedQuery q outer).Avoids name := by
  cases outer with
  | none => exact h
  | some outer =>
    intro s hs hread
    obtain ⟨s', hs', rfl | rfl⟩ := reaches_replace hs
    · exact h s hs' hread
    · exact h s' hs' (readsTable_replace hread)

end ParsedQuery

/-! ## A database with one more table -/

/-- The table takes the place of a table of that name. -/
def SelectEnv.withTable (env : SelectEnv) (name : String) (schema : Schema) (rows : List TableRow)
    (index : String → Value → Option (List TableRow)) : SelectEnv :=
  { env with
    loadSchema := fun n => if n = name then some schema else env.loadSchema n
    scanRows := fun n => if n = name then (rows, true) else env.scanRows n
    findRowsByIndex := fun n => if n = name then index else env.findRowsByIndex n }

section WithTable

variable {env : SelectEnv} {name : String} {schema : Schema} {rows : List TableRow}
  {index : String → Value → Option (List TableRow)}

theorem selectAll_withTable_of_ne {tableName : String} (h : tableName ≠ name) (tableAlias : String) :
    selectAll (env.withTable name schema rows index) tableName tableAlias =
      selectAll env tableName tableAlias := by
  simp only [selectAll, SelectEnv.withTable, if_neg h]

section Joins

variable {state : JoinState} {join : QueryJoin} {right : RightTable}

theorem matchedRows_withTable (leftRow : TableRow) (candidates : List TableRow) :
    matchedRows (env.withTable name schema rows index) state join right leftRow candidates =
      matchedRows env state join right leftRow candidates := by
  induction candidates with
  | nil => rfl
  | cons rightRow candidates ih =>
    rw [matchedRows, matchedRows, ih]
    rfl

theorem joinRows_withTable (h : join.tableName ≠ name) (leftRows : List TableRow) :
    joinRows (env.withTable name schema rows index) state join right leftRows =
      joinRows env state join right leftRows := by
  induction leftRows with
  | nil => rfl
  | cons leftRow leftRows ih =>
    have hcandidates : candidateRows (env.withTable name schema rows index) state join right leftRow =
        candidateRows env state join right leftRow := by
      simp only [candidateRows, SelectEnv.withTable, if_neg h]
    rw [joinRows, joinRows, hcandidates, matchedRows_withTable, ih]

theorem joinStep_withTable (h : join.tableName ≠ name) :
    joinStep (env.withTable name schema rows index) state join = joinStep env state join := by
  have hschema : (env.withTable name schema rows index).loadSchema join.tableName =
      env.loadSchema join.tableName := if_neg h
  have hrows : (env.withTable name schema rows index).scanRows join.tableName =
      env.scanRows join.tableName := if_neg h
  unfold joinStep
  rw [hschema]
  split
  · rfl
  · dsimp only
    split
    · rfl
    · rw [joinRows_withTable h, hrows]

theorem joinAll_withTable {joins : List QueryJoin} (h : ∀ j ∈ joins, j.tableName ≠ name) :
    joinAll (env.withTable name schema rows index) state joins = joinAll env state joins := by
  induction joins generalizing state with
  | nil => rfl
  | cons j joins ih =>
    have hrest := fun k (hk : k ∈ joins) => h k (List.mem_cons_of_mem j hk)
    rw [joinAll, joinAll, joinStep_withTable (h j List.mem_cons_self)]
    split
    · exact ih hrest
    · rfl

theorem executeJoin_withTable {tableName tableAlias : String} {joins : List QueryJoin}
    (h : tableName ≠ name) (hjoins : ∀ j ∈ joins, j.tableName ≠ name) :
    executeJoin (env.withTable name schema rows index) tableName tableAlias joins =
      executeJoin env tableName tableAlias joins := by
  have hschema : (env.withTable name schema rows index).loadSchema tableName =
      env.loadSchema tableName := if_neg h
  have hrows : (env.withTable name schema rows index).scanRows tableName =
      env.scanRows tableName := if_neg h
  unfold executeJoin
  rw [hschema]
  split
  · rfl
  · rw [joinAll_withTable hjoins, hrows]
    rfl

end Joins

variable {f g : ParsedQuery × Option Outer → Run QueryResult}

theorem executeRowSource_withTable {q : ParsedQuery} (hread : ¬ q.ReadsTable name)
    (hcalls : ∀ s ∈ q.sourceQuery, f (s, none) = g (s, none)) :
    executeRowSource env f q = executeRowSource (env.withTable name schema rows index) g q := by
  rw [executeRowSource_rel congruence_eq hcalls]
  unfold executeRowSource
  cases hd : q.derivedTable with
  | some d => rfl
  | none =>
    cases hn : q.namedExpression with
    | some c => rfl
    | none =>
      have hsource : q.sourceQuery = none := by rw [ParsedQuery.sourceQuery, hd, hn]; rfl
      have hname : q.tableName ≠ name := fun heq => hread ⟨hsource, .inl heq⟩
      have hjoins : ∀ j ∈ q.joins, j.tableName ≠ name :=
        fun j hj heq => hread ⟨hsource, .inr ⟨j, hj, heq⟩⟩
      dsimp only
      cases hj : q.joins with
      | nil => exact congrArg pure (selectAll_withTable_of_ne hname q.tableAlias).symm
      | cons j joins =>
        rw [hj] at hjoins
        exact congrArg orThrow (executeJoin_withTable hname hjoins).symm

theorem executeSelect_withTable {q : ParsedQuery} (hread : ¬ q.ReadsTable name)
    (hcalls : ∀ s, q.Calls s → ∀ outer, f (s, outer) = g (s, outer)) :
    executeSelect env f q = executeSelect (env.withTable name schema rows index) g q := by
  unfold executeSelect
  rw [executeRowSource_withTable hread fun s hs => hcalls s (.inl hs) none]
  have hwhere : whereRows env.texts env.command f q = whereRows env.texts env.command g q :=
    funext fun rows => whereRows_rel congruence_eq rows fun s hs outer => hcalls s (.inr hs) outer
  rw [hwhere]
  rfl

theorem combineParts_withTable {parts : List QueryCompound} (result : QueryResult)
    (hread : ∀ p ∈ parts, ¬ p.query.ReadsTable name)
    (hcalls : ∀ p ∈ parts, ∀ s, p.query.Calls s → ∀ outer, f (s, outer) = g (s, outer)) :
    combineParts env f result parts =
      combineParts (env.withTable name schema rows index) g result parts := by
  induction parts generalizing result with
  | nil => rfl
  | cons part parts ih =>
    have hrest := fun result => ih result (fun p hp => hread p (List.mem_cons_of_mem part hp))
      fun p hp => hcalls p (List.mem_cons_of_mem part hp)
    rw [combineParts, combineParts, executeSelect_withTable (hread part List.mem_cons_self)
      (hcalls part List.mem_cons_self)]
    refine congrArg (bind _) (funext fun right => ?_)
    split
    · rfl
    · split
      · rfl
      · cases part.operator with
        | unionOp => exact hrest _
        | intersectOp => exact hrest _

/-- Queries that do not read the table have the results that they have without it. -/
theorem executeSelectChain_withTable {q : ParsedQuery} (h : q.Avoids name) (fuel : Nat)
    (outer : Option Outer) :
    executeSelectChain env fuel q outer =
      executeSelectChain (env.withTable name schema rows index) fuel q outer := by
  refine iterate_congr (fun i => i.1.Avoids name) ?_ fuel h
  intro f g i hi hcalls
  obtain ⟨q, outer⟩ := i
  have hprepared := ParsedQuery.avoids_prepared hi outer
  have hparts := fun c (hc : c ∈ (preparedQuery q outer).compounds) =>
    hprepared.of_reaches (ParsedQuery.reaches_of_mem_compounds hc)
  show (executeSelect env f (preparedQuery q outer) >>= _) = executeSelect _ g _ >>= _
  rw [executeSelect_withTable (hprepared _ .refl) fun s hs outer => hcalls (s, outer)
    (hprepared.of_calls hs)]
  refine congrArg (bind _) (funext fun result => ?_)
  split
  · rfl
  · exact combineParts_withTable result (fun c hc => hparts c hc _ .refl) fun c hc s hs outer =>
      hcalls (s, outer) ((hparts c hc).of_calls hs)

end WithTable

end ScratchDb.Select
