import ScratchDb.Select.StoredSources

/-!
# Derived tables and common table expressions

A query over a derived table or an expression of its `WITH` list has the result of
the query over a stored table with these rows, provided that nothing but its own
`FROM` needs them: there are no joins, and the compound parts and the subqueries of
`WHERE` do not read a table of that name. Joins behind such a `FROM` are ignored,
and behind a stored table the `WITH` list is.
-/

namespace ScratchDb.Select

open OpenRecursion

namespace ParsedQuery

/-- The derived table, or the expression of the `WITH` list, in `FROM`. -/
def fromItem (q : ParsedQuery) : Option ParsedQuery :=
  match q.derivedTable with
  | some d => some d
  | none => q.namedExpression.map (·.query)

/-- The item with the `WITH` lists whose names it may use. -/
def fromSubquery (q : ParsedQuery) : Option ParsedQuery :=
  q.fromItem.map fun s =>
    { s with commonTableExpressions := s.commonTableExpressions ++ q.commonTableExpressions }

/-- The alias of a derived table, or the name in `FROM`. -/
def sourceName (q : ParsedQuery) : String :=
  match q.derivedTable with
  | some _ => q.tableAlias
  | none => q.tableName

/-- The query over a stored table. -/
def overTable (q : ParsedQuery) : ParsedQuery :=
  { q with derivedTable := none, tableName := q.sourceName, commonTableExpressions := [] }

/-- Only the row source of the query itself uses the item in `FROM`. -/
structure Transparent (q : ParsedQuery) : Prop where
  /-- the parser asks for it -/
  named : q.derivedTable ≠ none → q.tableAlias ≠ ""
  ownList : ∀ s ∈ q.fromItem, s.commonTableExpressions = []
  joins : q.joins = []
  subqueries : ∀ s ∈ q.whereSubqueries, s.Avoids q.sourceName
  parts : ∀ c ∈ q.compounds, c.query.Avoids q.sourceName

variable {q s : ParsedQuery}

theorem sourceQuery_eq (q : ParsedQuery) :
    q.sourceQuery =
      q.fromItem.map fun s => { s with commonTableExpressions := q.commonTableExpressions } := by
  unfold sourceQuery fromItem
  cases q.derivedTable with
  | some d => rfl
  | none => rw [Option.map_map]; rfl

/-- The item is executed with the list of the query in the place of its own. -/
theorem Transparent.sourceQuery (h : q.Transparent) (hs : q.fromSubquery = some s) :
    q.sourceQuery = some s := by
  rw [fromSubquery, Option.map_eq_some_iff] at hs
  obtain ⟨item, hitem, rfl⟩ := hs
  rw [sourceQuery_eq, hitem, h.ownList item hitem]
  rfl

theorem compounds_congr {q q' : ParsedQuery} (h : q.compound = q'.compound) :
    q.compounds = q'.compounds := by
  cases hc : q.compound with
  | none => rw [compounds_of_none hc, compounds_of_none (h.symm.trans hc)]
  | some c => rw [compounds_of_some hc, compounds_of_some (h.symm.trans hc)]

end ParsedQuery

/-! ## The stored table -/

section Stored

variable {env : SelectEnv} {schema : Schema} {rows : List TableRow}
  {index : String → Value → Option (List TableRow)} {r : QueryResult}
  {f g : ParsedQuery × Option Outer → Run QueryResult}

/-- The table gives the rows of the result under its name. -/
theorem selectAll_withTable (name tableAlias : String) (hok : r.isOk = true) (hcounted : r.Counted)
    (hcolumns : tableColumns schema = r.columns)
    (hrows : rows.map (tableRow env.texts schema) = r.rows) :
    selectAll (env.withTable name schema rows index) name tableAlias =
      renamed r name tableAlias := by
  have hcount : rows.length = r.rowCount := by
    rw [hcounted, ← hrows, List.length_map]
  have herror : r.error = none := Option.isNone_iff_eq_none.mp hok
  simp only [selectAll, SelectEnv.withTable, if_true]
  unfold renamed
  rw [hcolumns, hrows, hcount, herror]

theorem executeRowSource_overTable {q s : ParsedQuery} (h : q.Transparent)
    (hs : q.sourceQuery = some s) (hr : f (s, none) = .ok r) (hok : r.isOk = true)
    (hcounted : r.Counted) (hcolumns : tableColumns schema = r.columns)
    (hrows : rows.map (tableRow env.texts schema) = r.rows) :
    executeRowSource env f q =
      executeRowSource (env.withTable q.sourceName schema rows index) g q.overTable := by
  have hstored : executeRowSource (env.withTable q.sourceName schema rows index) g q.overTable =
      pure (renamed r q.sourceName q.tableAlias) := by
    rw [← @selectAll_withTable env schema rows index r q.sourceName q.tableAlias hok hcounted hcolumns
      hrows]
    unfold executeRowSource
    rw [show q.overTable.joins = [] from h.joins]
    rfl
  rw [hstored]
  unfold executeRowSource
  unfold ParsedQuery.sourceQuery at hs
  cases hd : q.derivedTable with
  | some d =>
    have hnamed : q.tableAlias ≠ "" := h.named (by rw [hd]; exact Option.some_ne_none d)
    have hname : q.sourceName = q.tableAlias := by rw [ParsedQuery.sourceName, hd]
    rw [hd] at hs
    cases hs
    dsimp only
    rw [hr, hname]
    show (if r.isOk = false then _ else _) = _
    rw [if_neg (by rw [hok]; decide), if_neg hnamed]
  | none =>
    have hname : q.sourceName = q.tableName := by rw [ParsedQuery.sourceName, hd]
    rw [hd] at hs
    simp only [Option.map_eq_some_iff] at hs
    obtain ⟨c, hc, rfl⟩ := hs
    dsimp only
    rw [hc]
    dsimp only
    rw [hr, hname]
    show (if r.isOk = false then _ else _) = _
    rw [if_neg (by rw [hok]; decide)]

/-- The item in `FROM` and the table that holds its rows give the same. -/
theorem executeSelectChain_overTable {q s : ParsedQuery} (h : q.Transparent)
    (hs : q.sourceQuery = some s) {fuel : Nat} (hr : executeSelectChain env fuel s none = .ok r)
    (hok : r.isOk = true) (hcolumns : tableColumns schema = r.columns)
    (hrows : rows.map (tableRow env.texts schema) = r.rows) {fuel' : Nat} (hfuel : fuel ≤ fuel') :
    executeSelectChain env (fuel' + 1) q none =
      executeSelectChain (env.withTable q.sourceName schema rows index) (fuel' + 1) q.overTable
        none := by
  have hmore : iterate (chainStep env) fuel' (s, none) = .ok r := by
    obtain ⟨k, rfl⟩ := Nat.exists_eq_add_of_le hfuel
    rcases iterate_mono chainStep_mono fuel k (s, none) with hstop | hsame
    · rw [show iterate (chainStep env) fuel (s, none) = .ok r from hr] at hstop
      cases hstop
    · exact hsame.symm.trans hr
  have hsource := @executeRowSource_overTable env schema rows index r
    (iterate (chainStep env) fuel')
    (iterate (chainStep (env.withTable q.sourceName schema rows index)) fuel') q s h hs hmore hok
    (executeSelectChain_counted hr) hcolumns hrows
  have hcalls : ∀ p : ParsedQuery, p.Avoids q.sourceName → ∀ outer,
      iterate (chainStep env) fuel' (p, outer) =
        iterate (chainStep (env.withTable q.sourceName schema rows index)) fuel' (p, outer) :=
    fun p hp outer => executeSelectChain_withTable hp fuel' outer
  show (executeSelect env _ q >>= _) = executeSelect _ _ q.overTable >>= _
  have hselect : executeSelect env (iterate (chainStep env) fuel') q =
      executeSelect (env.withTable q.sourceName schema rows index)
        (iterate (chainStep (env.withTable q.sourceName schema rows index)) fuel') q.overTable := by
    unfold executeSelect
    rw [hsource]
    refine congrArg (bind _) (funext fun result => ?_)
    split
    · rfl
    · rw [whereRows_rel congruence_eq result fun p hp outer => hcalls p (h.subqueries p hp) outer]
      rfl
  rw [hselect]
  refine congrArg (bind _) (funext fun result => ?_)
  split
  · rfl
  · have hcompounds : (preparedQuery q.overTable none).compounds = q.compounds :=
      ParsedQuery.compounds_congr rfl
    rw [hcompounds]
    exact combineParts_withTable result (fun c hc => h.parts c hc _ .refl) fun c hc p hp outer =>
      hcalls p ((h.parts c hc).of_calls hp) outer

end Stored

/-! ## What is ignored -/

/-- Two queries that only differ in how their rows are asked for. -/
theorem chainStep_congr_source {env : SelectEnv}
    {f : ParsedQuery × Option Outer → Run QueryResult} {q q' : ParsedQuery} {outer outer' : Option Outer}
    (hsource : executeRowSource env f (preparedQuery q outer) =
      executeRowSource env f (preparedQuery q' outer'))
    (hwhere : whereRows env.texts env.command f (preparedQuery q outer) =
      whereRows env.texts env.command f (preparedQuery q' outer'))
    (hfinish : finishSelect env.texts env.command (preparedQuery q outer) =
      finishSelect env.texts env.command (preparedQuery q' outer'))
    (hcompound : (preparedQuery q outer).compound = (preparedQuery q' outer').compound) :
    chainStep env f (q, outer) = chainStep env f (q', outer') := by
  have hselect : executeSelect env f (preparedQuery q outer) =
      executeSelect env f (preparedQuery q' outer') := by
    unfold executeSelect
    rw [hsource, hwhere, hfinish]
  show (executeSelect env f _ >>= _) = executeSelect env f _ >>= _
  rw [hselect, ParsedQuery.compounds_congr hcompound]

theorem sourceQuery_prepared_eq_none {q : ParsedQuery} (outer : Option Outer) :
    (preparedQuery q outer).sourceQuery = none ↔ q.sourceQuery = none := by
  cases outer with
  | none => exact Iff.rfl
  | some outer =>
    show (replaceOuterReferences outer q).sourceQuery = none ↔ _
    rcases sourceQuery_replace outer q with heq | heq
    · rw [heq]
    · rw [heq, Option.map_eq_none_iff]

/-- Joins behind a derived table or an expression of the `WITH` list are not executed. -/
theorem executeSelectChain_joins_ignored {q : ParsedQuery} (hq : q.sourceQuery ≠ none)
    (env : SelectEnv) (fuel : Nat) (outer : Option Outer) :
    executeSelectChain env fuel q outer =
      executeSelectChain env fuel { q with joins := [] } outer := by
  cases fuel with
  | zero => rfl
  | succ fuel =>
    have hprepared : preparedQuery { q with joins := [] } outer =
        { preparedQuery q outer with joins := [] } := by
      cases outer with
      | none => rfl
      | some outer =>
        simp only [preparedQuery]
        rw [replaceOuterReferences_eq, replaceOuterReferences_eq outer q]
        rfl
    have hsource := mt (sourceQuery_prepared_eq_none outer).mp hq
    refine chainStep_congr_source ?_ ?_ ?_ ?_ <;> rw [hprepared]
    · unfold ParsedQuery.sourceQuery at hsource
      unfold executeRowSource
      cases hd : (preparedQuery q outer).derivedTable with
      | some d => rfl
      | none =>
        cases hn : (preparedQuery q outer).namedExpression with
        | some c =>
          have hn' : ParsedQuery.namedExpression { preparedQuery q outer with joins := [] } = some c := hn
          rw [hn']
        | none =>
          rw [hd, hn] at hsource
          exact absurd rfl hsource
    · rfl
    · rfl

/-- Where `FROM` names a stored table the `WITH` list is not looked at, joins included. -/
theorem executeSelectChain_list_ignored {q : ParsedQuery} (hq : q.sourceQuery = none)
    (env : SelectEnv) (fuel : Nat) (outer : Option Outer) :
    executeSelectChain env fuel q outer =
      executeSelectChain env fuel { q with commonTableExpressions := [] } outer := by
  cases fuel with
  | zero => rfl
  | succ fuel =>
    have hprepared : preparedQuery { q with commonTableExpressions := [] } outer =
        { preparedQuery q outer with commonTableExpressions := [] } := by
      cases outer with
      | none => rfl
      | some outer =>
        simp only [preparedQuery]
        rw [replaceOuterReferences_eq, replaceOuterReferences_eq outer q]
    have hsource := (sourceQuery_prepared_eq_none outer).mpr hq
    refine chainStep_congr_source ?_ ?_ ?_ ?_ <;> rw [hprepared]
    · unfold ParsedQuery.sourceQuery at hsource
      unfold executeRowSource
      cases hd : (preparedQuery q outer).derivedTable with
      | some d =>
        rw [hd] at hsource
        cases hsource
      | none =>
        rw [hd] at hsource
        rw [Option.map_eq_none_iff.mp hsource]
        rfl
    · rfl
    · rfl

/-! ## Transparent queries -/

/-- The tables `a (x)` and `b (y)`. -/
def twoTables : SelectEnv :=
  integerTables [⟨"a", ["x"], [[1], [2]]⟩, ⟨"b", ["y"], [[3], [4]]⟩] ""

/-- A table with the rows of `a`. -/
def copyTable (name : String) : IntegerTable := ⟨name, ["x"], [[1], [2]]⟩

def copyRows : List TableRow := [⟨⟨0, 0⟩, [.integer 1]⟩, ⟨⟨0, 0⟩, [.integer 2]⟩]

/-- `SELECT * FROM (SELECT * FROM a) d WHERE x = 1`. -/
def overDerived : ParsedQuery :=
  { ParsedQuery.allOf "" with
    tableAlias := "d"
    derivedTable := some (ParsedQuery.allOf "a")
    condition := some (.comparison (.columnReference "" "x" "x" 0) .equal (.literal "1" 0)) }

theorem overDerived_transparent : overDerived.Transparent where
  named _ := by decide
  ownList := by
    intro s hs
    cases hs
    rfl
  joins := rfl
  subqueries := by
    intro s hs
    cases hs
  parts := by
    rw [ParsedQuery.compounds_of_none rfl]
    intro c hc
    cases hc

/-- `WITH c AS (SELECT * FROM a) SELECT * FROM c CROSS JOIN b`. -/
def crossJoined : ParsedQuery :=
  { ParsedQuery.allOf "c" with
    joins := [⟨.cross, "b", "", none⟩]
    commonTableExpressions := [⟨"c", ParsedQuery.allOf "a"⟩] }

end ScratchDb.Select
