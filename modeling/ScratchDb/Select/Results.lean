import ScratchDb.Catalog.SchemaText
import ScratchDb.Select.Syntax

/-!
# Results and the stages of a `SELECT`

Model of the functions of `src/query/query_executor.cpp` that work on a
`QueryResult`: the lookup of columns, conditions on result rows, projection,
aggregates, groups, order, limit and the set operations. The parser and
formatter of single values and the arithmetic of `long double` are parameters.
A stage is `none` where `std::stold` throws.
-/

namespace ScratchDb.Select

/-- `std::stold` and `long double`; `stold` is `none` where it throws. -/
structure LongDouble where
  Number : Type
  stold : String → Option Number
  equal : Number → Number → Bool
  less : Number → Number → Bool
  zero : Number
  add : Number → Number → Number
  divide : Number → Nat → Number
  /-- the text of the number cast to `int64_t` -/
  toInt64 : Number → String
  /-- `std::fixed` with a precision -/
  toFixed : Number → Nat → String

structure ValueTexts extends ValueParser where
  formatValue : Column → Value → String
  numbers : LongDouble

/-- The number that the digits of a text stand for. -/
def numeral (text : String) : Option Int :=
  if text ≠ "" ∧ text.toList.all Char.isDigit then
    some (text.toList.foldl (fun n c => 10 * n + (c.toNat - '0'.toNat : Nat)) 0)
  else none

def numeralText (n : Int) : String := String.ofList (decimal n.toNat)

/-- The parser and the formatter on the natural numbers of the examples, for INTEGER columns. -/
def integerTexts : ValueTexts where
  parseValue column text position :=
    if text = "NULL" then .ok .null
    else
      match numeral text with
      | some n => .ok (.integer n)
      | none =>
        .error { message := "invalid INTEGER value for column " ++ column.name, token := text, position }
  splitCsv text position := [(text, position)]
  formatValue _ value :=
    match value with
    | .integer n => numeralText n
    | _ => "NULL"
  numbers :=
    { Number := Int, stold := numeral, equal := fun x y => x == y, less := fun x y => x < y,
      zero := 0, add := fun x y => x + y, divide := fun x n => x / n, toInt64 := numeralText,
      toFixed := fun x _ => numeralText x }

structure QueryResultColumn where
  name : String
  type : String
deriving DecidableEq, Repr

/-- A result with texts for cells. -/
structure QueryResult where
  columns : List QueryResultColumn := []
  rows : List (List String) := []
  rowCount : Nat := 0
  error : Option QueryError := none
  columnPositions : List (String × Nat) := []
  ambiguousColumns : List String := []
deriving DecidableEq, Repr

def QueryResult.isOk (r : QueryResult) : Bool := r.error.isNone

def queryError (message token : String) (source : String := "") (position : Nat := 0) : QueryError :=
  { message, token, source, position }

def failed (e : QueryError) : QueryResult := { error := some e }

/-- A cell; the source reads past the end of a row that is too short. -/
def cell (row : List String) (i : Nat) : String := row[i]?.getD ""

/-! ## Columns -/

namespace QueryResult

def addColumnLookup (r : QueryResult) (key : String) (index : Nat) : QueryResult :=
  match r.columnPositions.lookup key with
  | some existing =>
    if existing = index then r else { r with ambiguousColumns := key :: r.ambiguousColumns }
  | none => { r with columnPositions := r.columnPositions ++ [(key, index)] }

def setBasicColumnLookup (r : QueryResult) : QueryResult :=
  r.columns.zipIdx.foldl (fun r c => r.addColumnLookup c.1.name c.2) r

def setTableColumnLookup (r : QueryResult) (tableName tableAlias : String) : QueryResult :=
  let qualifier := if tableAlias = "" then tableName else tableAlias
  r.columns.zipIdx.foldl (fun r c => r.addColumnLookup (qualifier ++ "." ++ c.1.name) c.2)
    r.setBasicColumnLookup

end QueryResult

/-- What `result_column_index` returns: -2, -1, or an index. -/
inductive ColumnIndex where
  | ambiguous
  | unknown
  | found (index : Nat)
deriving DecidableEq, Repr

def lookupColumn (r : QueryResult) (tableAlias columnName : String) : ColumnIndex :=
  let wanted := if tableAlias = "" then columnName else tableAlias ++ "." ++ columnName
  if wanted ∈ r.ambiguousColumns then .ambiguous
  else
    match r.columnPositions.lookup wanted with
    | some i => .found i
    | none => .unknown

def resultColumnIndex (r : QueryResult) (selected : SelectedColumn) : ColumnIndex :=
  lookupColumn r selected.tableAlias selected.columnName

def expressionColumnIndex (r : QueryResult) : QueryExpression → ColumnIndex
  | .columnReference tableAlias name _ _ => lookupColumn r tableAlias name
  | .aggregate function tableAlias _ _ => lookupColumn r tableAlias function.name
  | .literal _ _ => lookupColumn r "" ""
  | .scalarSubquery _ _ _ => lookupColumn r "" ""

def orderByIndex (r : QueryResult) (selectedColumns : List SelectedColumn) (o : OrderByColumn) :
    ColumnIndex :=
  match resultColumnIndex r o.column with
  | .unknown =>
    match selectedColumns.find? fun s => s.columnAlias ≠ "" ∧ s.columnAlias = o.column.columnName with
    | some s => resultColumnIndex r s
    | none => .unknown
  | direct => direct

/-! ## Cells as values -/

def isNumeric (c : QueryResultColumn) : Bool := c.type = "integer" || c.type = "number"

def quoteScalarIfNeeded (c : QueryResultColumn) (value : String) : String :=
  if isNumeric c then value else "'" ++ value ++ "'"

/-- Every type that is not listed becomes VARSTRING. -/
def columnFromResultColumn (c : QueryResultColumn) : Column :=
  match Column.typeFromString c.type with
  | some .integer => ⟨c.name, .integer, true, 8, 0, 0⟩
  | some .number => ⟨c.name, .number, true, 8, 18, 6⟩
  | some .character => ⟨c.name, .character, true, 1, 0, 0⟩
  | some .date => ⟨c.name, .date, true, 4, 0, 0⟩
  | some .time => ⟨c.name, .time, true, 4, 0, 0⟩
  | some .datetime => ⟨c.name, .datetime, true, 8, 0, 0⟩
  | some .text => ⟨c.name, .text, true, 2048, 0, 0⟩
  | _ => ⟨c.name, .varstring, true, 1024, 0, 0⟩

section Texts

variable (texts : ValueTexts)

def valueFromResultText (c : QueryResultColumn) (text : String) : Value :=
  match texts.parseValue (columnFromResultColumn c) (quoteScalarIfNeeded c text) 0 with
  | .ok value => value
  | .error _ => .null

def columnOf (source : QueryResult) (i : Nat) : QueryResultColumn := source.columns[i]?.getD ⟨"", ""⟩

/-- The comparisons of a row's value with the values of a subquery. -/
def compareRightValues (column : QueryResultColumn) (left : Value) (test : SubqueryTest)
    (position : Nat) : List String → Except QueryError (List Bool)
  | [] => .ok []
  | text :: rest =>
    match texts.parseValue (columnFromResultColumn column) (quoteScalarIfNeeded column text)
      position with
    | .error e => .error (e.toQueryError "")
    | .ok value =>
      let comparison := Value.compareValues left value
      let matched := match test with
        | .isIn => compareWithOperator comparison .equal
        | .any op => compareWithOperator comparison op
        | .all op => compareWithOperator comparison op
      (compareRightValues column left test position rest).map (matched :: ·)

def rightValuesMatch (source : QueryResult) (row : List String) (left : QueryExpression)
    (test : SubqueryTest) (values : List String) : Except QueryError Bool :=
  match expressionColumnIndex source left with
  | .ambiguous => .error (queryError "ambiguous column" left.label "" left.position)
  | .unknown => .error (queryError "unknown column" left.label "" left.position)
  | .found i => do
    let column := columnOf source i
    let matched ← compareRightValues texts column (valueFromResultText texts column (cell row i)) test
      left.position values
    match test with
    | .all _ => pure (matched.all id)
    | _ => pure (matched.any id)

/-- The value of a column that a comparison names. -/
def comparedColumn (source : QueryResult) (row : List String) (e : QueryExpression) :
    Except QueryError (QueryResultColumn × Value) :=
  match expressionColumnIndex source e with
  | .ambiguous => .error (queryError "ambiguous column" e.label "" e.position)
  | .unknown => .error (queryError "unknown column" e.label "" e.position)
  | .found i =>
    .ok (columnOf source i, valueFromResultText texts (columnOf source i) (cell row i))

def QueryExpression.isColumn : QueryExpression → Bool
  | .columnReference _ _ _ _ => true
  | .aggregate _ _ _ _ => true
  | _ => false

def comparisonMatches (source : QueryResult) (row : List String) (left : QueryExpression)
    (op : QueryOperator) (right : QueryExpression) : Except QueryError Bool :=
  if left.isColumn = false then .error (queryError "expected column" left.label "" left.position)
  else do
    let (column, leftValue) ← comparedColumn texts source row left
    if right.isColumn then do
      let (_, rightValue) ← comparedColumn texts source row right
      pure (compareWithOperator (Value.compareValues leftValue rightValue) op)
    else
      match texts.parseValue (columnFromResultColumn column) right.literalText right.position with
      | .error e => .error (e.toQueryError "")
      | .ok value => pure (compareWithOperator (Value.compareValues leftValue value) op)

/-- A subquery that nobody has resolved has no values and does not exist. -/
def resultRowMatches (source : QueryResult) (row : List String) :
    QueryCondition → Except QueryError Bool
  | .comparison left op right => comparisonMatches texts source row left op right
  | .subquery left test _ => rightValuesMatch texts source row left test []
  | .rightValues left test values => rightValuesMatch texts source row left test values
  | .existsSubquery _ => .ok false
  | .existsResult result => .ok result
  | .not c => do
    let matched ← resultRowMatches source row c
    pure (!matched)
  | .and left right => do
    if ← resultRowMatches source row left then resultRowMatches source row right else pure false
  | .or left right => do
    if ← resultRowMatches source row left then pure true else resultRowMatches source row right

/-! ## Projection -/

def QueryScalarFunction.name : QueryScalarFunction → String
  | .none => ""
  | .length => "length"
  | .upper => "upper"
  | .lower => "lower"

def applyScalarFunction (f : QueryScalarFunction) (value : String) : String :=
  match f with
  | .none => value
  | f =>
    if value = "NULL" then value
    else
      match f with
      | .length => String.ofList (decimal value.length)
      | .upper => String.ofList (value.toList.map Char.toUpper)
      | .lower => String.ofList (value.toList.map Char.toLower)
      | .none => value

/-- The indexes of the selected columns, or the first error. -/
def selectedIndexes (source : QueryResult) : List SelectedColumn → Except QueryError (List Nat)
  | [] => .ok []
  | s :: selected =>
    match resultColumnIndex source s with
    | .ambiguous => .error (queryError "ambiguous selected column" s.columnName "" s.position)
    | .unknown => .error (queryError "unknown selected column" s.columnName "" s.position)
    | .found i => (selectedIndexes source selected).map (i :: ·)

def projectedColumn (source : QueryResult) (s : SelectedColumn) (i : Nat) : QueryResultColumn where
  name :=
    if s.columnAlias ≠ "" then s.columnAlias
    else if s.scalarFunction = .none then (columnOf source i).name
    else s.scalarFunction.name
  type := if s.scalarFunction = .length then "integer" else (columnOf source i).type

def projectResult (source : QueryResult) (query : ParsedQuery) : QueryResult :=
  if query.selectAll then source
  else
    match selectedIndexes source query.selectedColumns with
    | .error e => failed e
    | .ok indexes =>
      { columns := query.selectedColumns.zipWith (projectedColumn source) indexes
        rows := source.rows.map fun row =>
          query.selectedColumns.zipWith
            (fun s i => applyScalarFunction s.scalarFunction (cell row i)) indexes
        rowCount := source.rows.length : QueryResult }.setBasicColumnLookup

/-! ## Aggregates -/

/-- `std::stold`, which throws on a text that is no number. -/
def stold (text : String) : Option texts.numbers.Number := texts.numbers.stold text

def betterCell (column : QueryResultColumn) (function : QueryAggregateFunction)
    (candidate value : String) : Option Bool :=
  if isNumeric column then do
    let c ← stold texts candidate
    let v ← stold texts value
    pure (if function = .max then texts.numbers.less v c else texts.numbers.less c v)
  else pure (decide (if function = .max then value < candidate else candidate < value))

/-- The loop of `MAX` and `MIN`. -/
def bestCell (column : QueryResultColumn) (function : QueryAggregateFunction) :
    String → List String → Option String
  | value, [] => pure value
  | value, candidate :: candidates => do
    let better ← betterCell texts column function candidate value
    bestCell column function (if better then candidate else value) candidates

def sumCells : texts.numbers.Number → List String → Option texts.numbers.Number
  | sum, [] => pure sum
  | sum, text :: rest => do
    let n ← stold texts text
    sumCells (texts.numbers.add sum n) rest

def decimalScaleForText (text : String) : Nat :=
  match DelimitedText.cutAt '.' text.toList with
  | none => 0
  | some (_, fraction) => fraction.length

def formatNumericAggregate (value : texts.numbers.Number) (column : QueryResultColumn)
    (cells : List String) : String :=
  if column.type = "integer" then texts.numbers.toInt64 value
  else
    let scale := (cells.map decimalScaleForText).foldl Nat.max 0
    texts.numbers.toFixed value (if scale = 0 then 2 else scale)

/-- The cell of one aggregate; `COUNT` of a column leaves none. -/
def aggregateCell (column : QueryResultColumn) (s : SelectedColumn) (cells : List String) :
    Option (Except QueryError (List String)) :=
  match cells with
  | [] => pure (.ok [""])
  | first :: _ =>
    if s.aggregate = .max ∨ s.aggregate = .min then do
      let best ← bestCell texts column s.aggregate first cells
      pure (.ok [best])
    else if isNumeric column = false then
      pure (.error (queryError "aggregate requires numeric column" s.columnName "" s.position))
    else do
      let sum ← sumCells texts texts.numbers.zero cells
      match s.aggregate with
      | .sum => pure (.ok [formatNumericAggregate texts sum column cells])
      | .avg =>
        pure (.ok [formatNumericAggregate texts (texts.numbers.divide sum cells.length) column cells])
      | _ => pure (.ok [])

def aggregateColumn (source : QueryResult) (s : SelectedColumn) :
    Option (Except QueryError (QueryResultColumn × List String)) :=
  if s.aggregate = .none then
    pure (.error (queryError "cannot mix aggregate and non-aggregate selected columns" s.columnName ""
      s.position))
  else if s.aggregate = .count ∧ s.columnName = "*" then
    pure (.ok (⟨if s.columnAlias = "" then "count" else s.columnAlias, "integer"⟩,
      [String.ofList (decimal source.rows.length)]))
  else
    match resultColumnIndex source s with
    | .ambiguous =>
      pure (.error (queryError "ambiguous selected column" s.columnName "" s.position))
    | .unknown => pure (.error (queryError "unknown selected column" s.columnName "" s.position))
    | .found i => do
      let column := columnOf source i
      let cells ← aggregateCell texts column s (source.rows.map (cell · i))
      pure (cells.map fun cells =>
        (⟨if s.columnAlias = "" then s.aggregate.name else s.columnAlias, column.type⟩, cells))

/-- The loop over the selected columns. -/
def aggregateColumns (source : QueryResult) :
    List SelectedColumn → Option (Except QueryError (List (QueryResultColumn × List String)))
  | [] => pure (.ok [])
  | s :: selected => do
    match ← aggregateColumn texts source s with
    | .error e => pure (.error e)
    | .ok c => do
      let rest ← aggregateColumns source selected
      pure (rest.map (c :: ·))

def aggregateResult (source : QueryResult) (selected : List SelectedColumn) : Option QueryResult := do
  match ← aggregateColumns texts source selected with
  | .error e => pure (failed e)
  | .ok cs =>
    pure { columns := cs.map (·.1), rows := [cs.flatMap (·.2)], rowCount := 1 : QueryResult }.setBasicColumnLookup

/-! ## Groups -/

/-- The texts of a row with their lengths. -/
def rowKey (row : List String) : String :=
  String.join (row.map fun value => String.ofList (decimal value.length) ++ ":" ++ value ++ "|")

def groupIndexes (source : QueryResult) : List SelectedColumn → Except QueryError (List Nat)
  | [] => .ok []
  | g :: columns =>
    match resultColumnIndex source g with
    | .ambiguous => .error (queryError "ambiguous GROUP BY column" g.columnName "" g.position)
    | .unknown => .error (queryError "unknown GROUP BY column" g.columnName "" g.position)
    | .found i => (groupIndexes source columns).map (i :: ·)

def selectedIsGrouped (groupColumns : List SelectedColumn) (s : SelectedColumn) : Bool :=
  groupColumns.any fun g => g.columnName = s.columnName && g.tableAlias = s.tableAlias

def groupedColumns (source : QueryResult) :
    List SelectedColumn → Except QueryError (List QueryResultColumn)
  | [] => .ok []
  | s :: selected =>
    if s.aggregate = .count ∧ s.columnName = "*" then
      (groupedColumns source selected).map
        (⟨if s.columnAlias = "" then "count" else s.columnAlias, "integer"⟩ :: ·)
    else
      match resultColumnIndex source s with
      | .ambiguous => .error (queryError "ambiguous selected column" s.columnName "" s.position)
      | .unknown => .error (queryError "unknown selected column" s.columnName "" s.position)
      | .found i =>
        let column := columnOf source i
        let name := if s.aggregate = .none then column.name else s.aggregate.name
        (groupedColumns source selected).map
          (⟨if s.columnAlias = "" then name else s.columnAlias, column.type⟩ :: ·)

/-- The groups in the order of their first rows. -/
def addToGroups (key : String) (row : List String) :
    List (String × List (List String)) → List (String × List (List String))
  | [] => [(key, [row])]
  | g :: groups => if g.1 = key then (g.1, g.2 ++ [row]) :: groups else g :: addToGroups key row groups

def groupRows (indexes : List Nat) (rows : List (List String)) :
    List (String × List (List String)) :=
  rows.foldl (fun groups row => addToGroups (rowKey (indexes.map (cell row))) row groups) []

def groupCell (group : QueryResult) (s : SelectedColumn) : Option (Except QueryError String) :=
  if s.aggregate = .none then
    match resultColumnIndex group s with
    | .ambiguous =>
      pure (.error (queryError "ambiguous selected column" s.columnName "" s.position))
    | .unknown => pure (.ok "")
    | .found i => pure (.ok (cell (group.rows.headD []) i))
  else do
    let aggregate ← aggregateResult texts group [s]
    match aggregate.error with
    | some e => pure (.error e)
    | none => pure (.ok (cell (aggregate.rows.headD []) 0))

/-- One row of the result. -/
def groupCells (group : QueryResult) :
    List SelectedColumn → Option (Except QueryError (List String))
  | [] => pure (.ok [])
  | s :: selected => do
    match ← groupCell texts group s with
    | .error e => pure (.error e)
    | .ok text => do
      let rest ← groupCells group selected
      pure (rest.map (text :: ·))

def groupsRows (source : QueryResult) (selected : List SelectedColumn) :
    List (String × List (List String)) → Option (Except QueryError (List (List String)))
  | [] => pure (.ok [])
  | g :: groups => do
    match ← groupCells texts
        { columns := source.columns, rows := g.2, rowCount := g.2.length,
          columnPositions := source.columnPositions,
          ambiguousColumns := source.ambiguousColumns } selected with
    | .error e => pure (.error e)
    | .ok row => do
      let rest ← groupsRows source selected groups
      pure (rest.map (row :: ·))

def groupedResult (source : QueryResult) (query : ParsedQuery) : Option QueryResult :=
  match groupIndexes source query.groupByColumns with
  | .error e => pure (failed e)
  | .ok indexes =>
    match query.selectedColumns.find? fun s =>
      s.aggregate = .none && !selectedIsGrouped query.groupByColumns s with
    | some s =>
      pure (failed (queryError "selected column must appear in GROUP BY" s.columnName "" s.position))
    | none =>
      match groupedColumns source query.selectedColumns with
      | .error e => pure (failed e)
      | .ok columns => do
        match ← groupsRows texts source query.selectedColumns (groupRows indexes source.rows) with
        | .error e => pure (failed e)
        | .ok rows =>
          pure { columns, rows, rowCount := rows.length : QueryResult }.setBasicColumnLookup

/-! ## Order and limit -/

def orderIndexes (r : QueryResult) (selected : List SelectedColumn) :
    List OrderByColumn → Except QueryError (List (Nat × Bool))
  | [] => .ok []
  | o :: columns =>
    match orderByIndex r selected o with
    | .ambiguous => .error (queryError "ambiguous ORDER BY column" o.column.columnName "" o.column.position)
    | .unknown => .error (queryError "unknown ORDER BY column" o.column.columnName "" o.column.position)
    | .found i => (orderIndexes r selected columns).map ((i, o.descending) :: ·)

def compareCells (column : QueryResultColumn) (left right : String) : Option Ordering :=
  if isNumeric column then do
    let l ← stold texts left
    let r ← stold texts right
    pure (if texts.numbers.equal l r then .eq else if texts.numbers.less l r then .lt else .gt)
  else pure (if left = right then .eq else if left < right then .lt else .gt)

/-- The comparison that is given to `std::stable_sort`. -/
def rowLess (columns : List QueryResultColumn) (left right : List String) :
    List (Nat × Bool) → Option Bool
  | [] => pure false
  | (i, descending) :: indexes => do
    match ← compareCells texts (columns[i]?.getD ⟨"", ""⟩) (cell left i) (cell right i) with
    | .eq => rowLess columns left right indexes
    | .lt => pure (!descending)
    | .gt => pure descending

/-- Before the rows that are not less. -/
def insertRow (less : List String → List String → Option Bool) (row : List String) :
    List (List String) → Option (List (List String))
  | [] => pure [row]
  | r :: rows => do
    if ← less r row then do
      let rest ← insertRow less row rows
      pure (r :: rest)
    else pure (row :: r :: rows)

/-- `std::stable_sort`. -/
def stableSort (less : List String → List String → Option Bool) :
    List (List String) → Option (List (List String))
  | [] => pure []
  | row :: rows => do
    let sorted ← stableSort less rows
    insertRow less row sorted

/-- `order_result`, and `order_source_rows`, which has the same body. -/
def orderResult (r : QueryResult) (query : ParsedQuery) : Option QueryResult :=
  if query.orderByColumns = [] then pure r
  else
    match orderIndexes r query.selectedColumns query.orderByColumns with
    | .error e => pure (failed e)
    | .ok indexes => do
      let rows ← stableSort (fun left right => rowLess texts r.columns left right indexes) r.rows
      pure { r with rows }

/-- The rows that a condition keeps, or its first error. -/
def keptRows (source : QueryResult) (condition : QueryCondition) :
    List (List String) → Except QueryError (List (List String))
  | [] => .ok []
  | row :: rows => do
    let matched ← resultRowMatches texts source row condition
    let rest ← keptRows source condition rows
    pure (if matched then row :: rest else rest)

/-- The result is a new one also where `r` has an error. -/
def havingResult (r : QueryResult) (query : ParsedQuery) : QueryResult :=
  match query.havingCondition with
  | none => r
  | some condition =>
    match keptRows texts r condition r.rows with
    | .error e => failed { e with source := "" }
    | .ok rows =>
      { columns := r.columns, rows, rowCount := rows.length, columnPositions := r.columnPositions,
        ambiguousColumns := r.ambiguousColumns }

def limitResult (r : QueryResult) (query : ParsedQuery) : QueryResult :=
  match query.limitCount with
  | none => r
  | some count => { r with rows := r.rows.take count, rowCount := (r.rows.take count).length }

end Texts

/-! ## Set operations -/

def compatibleColumns (left right : QueryResult) : Bool :=
  left.columns.map (·.type) = right.columns.map (·.type)

/-- The first occurrences of the rows whose keys are not in `seen`. -/
def distinctRows : List String → List (List String) → List (List String)
  | _, [] => []
  | seen, row :: rows =>
    if rowKey row ∈ seen then distinctRows seen rows
    else row :: distinctRows (rowKey row :: seen) rows

def unionResults (left right : QueryResult) (quantifier : QuerySetQuantifier) : QueryResult :=
  let rows := match quantifier with
    | .all => left.rows ++ right.rows
    | .some => distinctRows [] (left.rows ++ right.rows)
  { left with rows, rowCount := rows.length }

/-- `keys` are the keys of the right rows that are left. -/
def commonRows (quantifier : QuerySetQuantifier) :
    List String → List String → List (List String) → List (List String)
  | _, _, [] => []
  | keys, seen, row :: rows =>
    if rowKey row ∈ keys then
      match quantifier with
      | .all => row :: commonRows quantifier (keys.erase (rowKey row)) seen rows
      | .some =>
        if rowKey row ∈ seen then commonRows quantifier keys seen rows
        else row :: commonRows quantifier keys (rowKey row :: seen) rows
    else commonRows quantifier keys seen rows

def intersectResults (left right : QueryResult) (quantifier : QuerySetQuantifier) : QueryResult :=
  let rows := commonRows quantifier (right.rows.map rowKey) [] left.rows
  { left with rows, rowCount := rows.length }

end ScratchDb.Select
