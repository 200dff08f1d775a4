import ScratchDb.Lib.OpenRecursion
import ScratchDb.Select.Joins

/-!
# Executing a `SELECT`

Model of `execute_select_chain` of `src/query/query_executor.cpp` with the
functions it calls and that call it: `execute_select`, `execute_row_source`,
`resolve_subqueries` and `replace_outer_references`. The calls of
`execute_select_chain` are the argument of one step, which is iterated with fuel.
-/

namespace ScratchDb.Select

open OpenRecursion

/-- A row of an enclosing query, which a subquery may refer to. -/
structure Outer where
  result : QueryResult
  row : List String

/-! ## References to an outer row -/

section Outer

variable (outer : Outer)

def replaceExpression : QueryExpression → QueryExpression
  | .columnReference tableAlias name text position =>
    match lookupColumn outer.result tableAlias name with
    | .found i =>
      .literal (quoteScalarIfNeeded (columnOf outer.result i) (cell outer.row i)) position
    | _ => .columnReference tableAlias name text position
  | e => e

/-- A comparison whose left operand has become a literal is turned around. -/
def normalizeColumnLeft (left : QueryExpression) (op : QueryOperator) (right : QueryExpression) :
    QueryCondition :=
  match left, right with
  | .literal text position, .columnReference tableAlias name text' position' =>
    .comparison (.columnReference tableAlias name text' position') (flippedOperator op)
      (.literal text position)
  | left, right => .comparison left op right

/-- `replace_outer_references` on a condition; it does not look into subqueries. -/
def replaceCondition : QueryCondition → QueryCondition
  | .comparison left op right =>
    normalizeColumnLeft (replaceExpression outer left) op (replaceExpression outer right)
  | .subquery left test query => .subquery (replaceExpression outer left) test query
  | .rightValues left test values => .rightValues (replaceExpression outer left) test values
  | .existsSubquery query => .existsSubquery query
  | .existsResult result => .existsResult result
  | .not c => .not (replaceCondition c)
  | .and left right => .and (replaceCondition left) (replaceCondition right)
  | .or left right => .or (replaceCondition left) (replaceCondition right)

def replaceJoin (j : QueryJoin) : QueryJoin :=
  { j with condition := j.condition.map (replaceCondition outer) }

/-- `replace_outer_references` on a query, with its derived table and its compound parts. -/
def replaceOuterReferences : ParsedQuery → ParsedQuery
  | ⟨tableName, tableAlias, derived, all, selected, groups, orders, condition, having, joins, ctes,
      compound, limit⟩ =>
    ⟨tableName, tableAlias,
      match derived with
      | none => none
      | some q => some (replaceOuterReferences q),
      all, selected, groups, orders, condition.map (replaceCondition outer), having,
      joins.map (replaceJoin outer), ctes,
      match compound with
      | none => none
      | some ⟨operator, quantifier, q⟩ => some ⟨operator, quantifier, replaceOuterReferences q⟩,
      limit⟩

theorem replaceOuterReferences_eq (q : ParsedQuery) :
    replaceOuterReferences outer q =
      { q with
        derivedTable := q.derivedTable.map (replaceOuterReferences outer)
        condition := q.condition.map (replaceCondition outer)
        joins := q.joins.map (replaceJoin outer)
        compound := q.compound.map fun c =>
          { c with query := replaceOuterReferences outer c.query } } := by
  cases q with
  | mk tableName tableAlias derived all selected groups orders condition having joins ctes compound limit =>
    cases derived with
    | none =>
      cases compound with
      | none =>
        rw [replaceOuterReferences]
        rfl
      | some c =>
        cases c
        rw [replaceOuterReferences]
        rfl
    | some d =>
      cases compound with
      | none =>
        rw [replaceOuterReferences]
        rfl
      | some c =>
        cases c
        rw [replaceOuterReferences]
        rfl

end Outer

def preparedQuery (query : ParsedQuery) : Option Outer → ParsedQuery
  | none => query
  | some outer => replaceOuterReferences outer query

/-! ## What a query calls -/

def QueryExpression.subqueries : QueryExpression → List ParsedQuery
  | .scalarSubquery _ query _ => [query]
  | _ => []

/-- The subqueries of a condition, from left to right. -/
def QueryCondition.subqueries : QueryCondition → List ParsedQuery
  | .comparison _ _ right => right.subqueries
  | .subquery _ _ query => [query]
  | .rightValues _ _ _ => []
  | .existsSubquery query => [query]
  | .existsResult _ => []
  | .not c => c.subqueries
  | .and left right => left.subqueries ++ right.subqueries
  | .or left right => left.subqueries ++ right.subqueries

namespace ParsedQuery

/-- The expression of a `WITH` list that the table name stands for. -/
def namedExpression (q : ParsedQuery) : Option QueryCommonTableExpression :=
  q.commonTableExpressions.find? fun c => c.name = q.tableName

/-- The query that `FROM` executes, with the `WITH` list it is given. -/
def sourceQuery (q : ParsedQuery) : Option ParsedQuery :=
  match q.derivedTable with
  | some d => some { d with commonTableExpressions := q.commonTableExpressions }
  | none =>
    q.namedExpression.map fun c =>
      { c.query with commonTableExpressions := q.commonTableExpressions }

/-- The subqueries of `WHERE`. -/
def whereSubqueries (q : ParsedQuery) : List ParsedQuery :=
  match q.condition with
  | none => []
  | some condition => condition.subqueries

/-- The parts that follow a query after `UNION` or `INTERSECT`. -/
def compounds : ParsedQuery → List QueryCompound
  | ⟨_, _, _, _, _, _, _, _, _, _, _, none, _⟩ => []
  | ⟨_, _, _, _, _, _, _, _, _, _, _, some ⟨operator, quantifier, q⟩, _⟩ =>
    ⟨operator, quantifier, q⟩ :: q.compounds

theorem compounds_of_none {q : ParsedQuery} (h : q.compound = none) : q.compounds = [] := by
  cases q with
  | mk tableName tableAlias derived all selected groups orders condition having joins ctes compound limit =>
    cases h
    rw [compounds]

theorem compounds_of_some {q : ParsedQuery} {c : QueryCompound} (h : q.compound = some c) :
    q.compounds = c :: c.query.compounds := by
  cases q with
  | mk tableName tableAlias derived all selected groups orders condition having joins ctes compound limit =>
    cases h
    cases c
    rw [compounds]

end ParsedQuery

/-! ## Execution -/

/-- The rows of a query under another name. -/
def renamed (result : QueryResult) (tableName tableAlias : String) : QueryResult :=
  QueryResult.setTableColumnLookup
    { result with columnPositions := [], ambiguousColumns := [] } tableName tableAlias

/-- `std::stold` and the constructors throw. -/
def orThrow {α : Type} : Option α → Run α
  | some a => .ok a
  | none => .error .exception

section RowSource

variable (env : SelectEnv) (chain : ParsedQuery × Option Outer → Run QueryResult)

def executeRowSource (q : ParsedQuery) : Run QueryResult :=
  match q.derivedTable with
  | some d => do
    let result ← chain ({ d with commonTableExpressions := q.commonTableExpressions }, none)
    if result.isOk = false then pure result
    else if q.tableAlias = "" then
      pure (failed (queryError "derived table requires alias" "" env.command))
    else pure (renamed result q.tableAlias q.tableAlias)
  | none =>
    match q.namedExpression with
    | some c => do
      let result ← chain ({ c.query with commonTableExpressions := q.commonTableExpressions }, none)
      if result.isOk = false then pure result
      else pure (renamed result q.tableName q.tableAlias)
    | none =>
      match q.joins with
      | [] => pure (selectAll env q.tableName q.tableAlias)
      | j :: joins => orThrow (executeJoin env q.tableName q.tableAlias (j :: joins))

end RowSource

section Conditions

variable (texts : ValueTexts) (command : String)
  (chain : ParsedQuery × Option Outer → Run QueryResult)

def scalarSubqueryValue (outer : Outer) (query : ParsedQuery) :
    Run (Except QueryResult String) := do
  let result ← chain (query, some outer)
  if result.isOk = false then pure (.error result)
  else if result.columns.length ≠ 1 then
    pure (.error (failed (commandError command "scalar subquery must return one column" "SELECT")))
  else if result.rows.length ≠ 1 then
    pure (.error (failed (commandError command "scalar subquery must return one row" "SELECT")))
  else
    pure (.ok (quoteScalarIfNeeded (columnOf result 0) (cell (result.rows.headD []) 0)))

/-- The subqueries of a condition are executed and their values put in their place. -/
def resolveSubqueries (outer : Outer) : QueryCondition → Run (Except QueryResult QueryCondition)
  | .comparison left op (.scalarSubquery _ query position) => do
    match ← scalarSubqueryValue command chain outer query with
    | .error result => pure (.error result)
    | .ok text => pure (.ok (.comparison left op (.literal text position)))
  | .comparison left op right => pure (.ok (.comparison left op right))
  | .subquery left test query => do
    let result ← chain (query, some outer)
    if result.isOk = false then pure (.error result)
    else if result.columns.length ≠ 1 then
      pure (.error (failed (commandError command "subquery must return one column" "SELECT")))
    else pure (.ok (.rightValues left test (result.rows.filterMap List.head?)))
  | .rightValues left test values => pure (.ok (.rightValues left test values))
  | .existsSubquery query => do
    let result ← chain (query, some outer)
    if result.isOk = false then pure (.error result)
    else pure (.ok (.existsResult (result.rows ≠ [])))
  | .existsResult result => pure (.ok (.existsResult result))
  | .not c => do
    match ← resolveSubqueries outer c with
    | .error result => pure (.error result)
    | .ok c => pure (.ok (.not c))
  | .and left right => do
    match ← resolveSubqueries outer left with
    | .error result => pure (.error result)
    | .ok left => do
      match ← resolveSubqueries outer right with
      | .error result => pure (.error result)
      | .ok right => pure (.ok (.and left right))
  | .or left right => do
    match ← resolveSubqueries outer left with
    | .error result => pure (.error result)
    | .ok left => do
      match ← resolveSubqueries outer right with
      | .error result => pure (.error result)
      | .ok right => pure (.ok (.or left right))

/-- The loop over the rows of the source. -/
def filterRows (rows : QueryResult) (condition : QueryCondition) :
    List (List String) → Run (Except QueryResult (List (List String)))
  | [] => pure (.ok [])
  | row :: rest => do
    match ← resolveSubqueries command chain ⟨rows, row⟩ condition with
    | .error result => pure (.error result)
    | .ok resolved =>
      match resultRowMatches texts rows row resolved with
      | .error e => pure (.error (failed { e with source := command }))
      | .ok matched => do
        match ← filterRows rows condition rest with
        | .error result => pure (.error result)
        | .ok kept => pure (.ok (if matched then row :: kept else kept))

def selectedHasAggregate (q : ParsedQuery) : Bool := q.selectedColumns.any (·.aggregate ≠ .none)

/-- What `execute_select` does with the rows that the condition has kept. -/
def finishSelect (q : ParsedQuery) (rows : QueryResult) : Option QueryResult :=
  if q.groupByColumns ≠ [] then
    if q.selectAll then some (failed (commandError command "SELECT * is not allowed with GROUP BY" "*"))
    else do
      let grouped ← groupedResult texts rows q
      let ordered ← orderResult texts (havingResult texts grouped q) q
      some (limitResult ordered q)
  else if selectedHasAggregate q then do
    let aggregated ← aggregateResult texts rows q.selectedColumns
    let ordered ← orderResult texts (havingResult texts aggregated q) q
    some (limitResult ordered q)
  else
    match q.havingCondition with
    | some _ => some (failed (commandError command "HAVING requires aggregate query" "HAVING"))
    | none => do
      let ordered ← orderResult texts rows q
      if ordered.isOk = false then some ordered
      else some (limitResult (projectResult ordered q) q)

/-- What the condition keeps, or the result that ends the query. -/
def whereRows (q : ParsedQuery) (rows : QueryResult) : Run (Except QueryResult QueryResult) :=
  match q.condition with
  | none => pure (.ok rows)
  | some condition => do
    match ← filterRows texts command chain rows condition rows.rows with
    | .error result => pure (.error result)
    | .ok kept =>
      pure (.ok { columns := rows.columns, rows := kept, rowCount := kept.length,
                  columnPositions := rows.columnPositions,
                  ambiguousColumns := rows.ambiguousColumns })

end Conditions

section Execution

variable (env : SelectEnv) (chain : ParsedQuery × Option Outer → Run QueryResult)

def executeSelect (q : ParsedQuery) : Run QueryResult := do
  let rows ← executeRowSource env chain q
  if rows.isOk = false then pure rows
  else
    match ← whereRows env.texts env.command chain q rows with
    | .error result => pure result
    | .ok rows => orThrow (finishSelect env.texts env.command q rows)

/-- The loop over the compound parts. -/
def combineParts : QueryResult → List QueryCompound → Run QueryResult
  | result, [] => pure result
  | result, part :: parts => do
    let right ← executeSelect env chain part.query
    if right.isOk = false then pure right
    else if compatibleColumns result right = false then
      pure (failed (commandError env.command "compound SELECT columns do not match" part.query.tableName))
    else
      match part.operator with
      | .unionOp => combineParts (unionResults result right part.quantifier) parts
      | .intersectOp => combineParts (intersectResults result right part.quantifier) parts

/-- One call of `execute_select_chain`, given the calls it makes. -/
def chainStep : ParsedQuery × Option Outer → Run QueryResult
  | (query, outer) => do
    let prepared := preparedQuery query outer
    let result ← executeSelect env chain prepared
    if result.isOk = false then pure result else combineParts env chain result prepared.compounds

end Execution

/-- `execute_select_chain` with fuel for its nested calls. -/
def executeSelectChain (env : SelectEnv) (fuel : Nat) (query : ParsedQuery) (outer : Option Outer) :
    Run QueryResult := iterate (chainStep env) fuel (query, outer)

end ScratchDb.Select
