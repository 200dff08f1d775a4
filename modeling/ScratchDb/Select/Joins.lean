import ScratchDb.Select.Results

/-!
# Tables and joins

Model of `select_all` and `execute_join` of `src/query/query_executor.cpp`.
`execute_select` takes the condition out of the query before it asks for rows, so
both are modelled without one. What the storage holds is a parameter.
-/

namespace ScratchDb.Select

/-- What a `SELECT` reads: the tables as they are loaded, scanned and searched through an index,
and the text of the command. -/
structure SelectEnv where
  texts : ValueTexts
  command : String
  loadSchema : String → Option Schema
  /-- the rows a scan hands over, and whether it completes -/
  scanRows : String → List TableRow × Bool
  findRowsByIndex : String → String → Value → Option (List TableRow)

/-- A table of the examples: the names of its INTEGER columns and its rows. -/
structure IntegerTable where
  name : String
  columns : List String
  rows : List (List Int)

def IntegerTable.schema (t : IntegerTable) : Option Schema :=
  (Schema.make
    { tableName := t.name, columns := t.columns.map fun name => ⟨name, .integer, true, 8, 0, 0⟩,
      constraints := [], indexes := [], storageMode := .disk }).toOption

/-- A database with tables of integers and no index. -/
def integerTables (tables : List IntegerTable) (command : String) : SelectEnv where
  texts := integerTexts
  command := command
  loadSchema name := (tables.find? (·.name = name)).bind IntegerTable.schema
  scanRows name :=
    ((((tables.find? (·.name = name)).map (·.rows)).getD []).map fun row =>
      ⟨⟨0, 0⟩, row.map .integer⟩, true)
  findRowsByIndex _ _ _ := none

/-- An error of the statement at the first occurrence of a token. -/
def commandError (command message token : String) : QueryError :=
  queryError message token command (tokenPosition command token)

/-! ## Rows of a table -/

def tableColumns (schema : Schema) : List QueryResultColumn :=
  schema.columns.map fun c => ⟨c.name, Column.typeToString c.type⟩

/-- The texts of a row; a value without column has an empty text. -/
def tableRow (texts : ValueTexts) (schema : Schema) (row : TableRow) : List String :=
  row.values.zipIdx.map fun v =>
    match schema.columns[v.2]? with
    | some column => texts.formatValue column v.1
    | none => ""

def selectAll (env : SelectEnv) (tableName tableAlias : String) : QueryResult :=
  match env.loadSchema tableName with
  | none => failed (commandError env.command "unknown table" tableName)
  | some schema =>
    let scan := env.scanRows tableName
    if scan.2 then
      QueryResult.setTableColumnLookup
        { columns := tableColumns schema, rows := scan.1.map (tableRow env.texts schema),
          rowCount := scan.1.length } tableName tableAlias
    else failed (commandError env.command "scan failed" tableName)

/-! ## Names -/

/-- `std::map<std::string, std::string>`. -/
abbrev AliasMap := List (String × String)

def AliasMap.set (m : AliasMap) (key value : String) : AliasMap :=
  (key, value) :: m.filter fun p => p.1 ≠ key

def buildAliasMap (alias' : String) (schema : Schema) : AliasMap :=
  schema.columns.foldl (fun m c =>
    (if alias' = "" then m else m.set (alias' ++ "." ++ c.name) c.name).set c.name c.name) []

/-- `name`, or `name_1`, `name_2`, ... where it is taken. -/
def freeName (seen : List String) (name : String) : String :=
  if name ∈ seen then
    (((List.range (seen.length + 1)).map fun i => name ++ "_" ++ String.ofList (decimal (i + 1))).find?
      fun n => n ∉ seen).getD name
  else name

/-- The columns of the right table that a join adds, with the names they get. -/
def addedColumns (type : QueryJoinType) : List String → List Column → List (Column × String)
  | _, [] => []
  | seen, c :: columns =>
    if type = .natural ∧ c.name ∈ seen then addedColumns type seen columns
    else (c, freeName seen c.name) :: addedColumns type (freeName seen c.name :: seen) columns

def columnNames (schema : Schema) : List String := schema.columns.map (·.name)

def joinColumnsForRightSide (current right : Schema) (type : QueryJoinType) :
    Option (List Column) :=
  (addedColumns type (columnNames current) right.columns).mapM fun c =>
    Column.fromCatalog c.2 c.1.type c.1.nullable c.1.maxSize c.1.precision c.1.scale

def buildJoinAliasMap (aliases : AliasMap) (rightAlias : String) (current right : Schema)
    (type : QueryJoinType) : AliasMap :=
  (addedColumns type (columnNames current) right.columns).foldl (fun m c =>
    (if rightAlias = "" then m else m.set (rightAlias ++ "." ++ c.1.name) c.2).set c.1.name c.2) aliases

/-- The constructor of `Schema` throws where the columns do not make a schema. -/
def mergedJoinSchema (current : Schema) (rightColumns : List Column) : Option Schema :=
  match Schema.make
      { tableName := current.tableName, columns := current.columns ++ rightColumns,
        constraints := [], indexes := [], storageMode := .disk } with
  | .ok schema => some schema
  | .error _ => none

/-- The aliases with a qualifier, the first column of their name, and the name behind the dot. -/
def qualifiedSources (columns : List QueryResultColumn) (aliases : AliasMap) :
    List (String × String × Nat) :=
  aliases.filterMap fun p =>
    match DelimitedText.cutAt '.' p.1.toList with
    | none => none
    | some (_, name) =>
      (columns.findIdx? fun c => c.name = p.2).map fun i => (p.1, String.ofList name, i)

/-- A name behind several columns is ambiguous. -/
def setUnqualified (sources : List (String × String × Nat)) (r : QueryResult) (name : String) :
    QueryResult :=
  match (sources.filter fun s => s.2.1 = name).map (·.2.2) with
  | [] => r
  | i :: indexes =>
    if indexes.all (· = i) then r.addColumnLookup name i
    else { r with ambiguousColumns := name :: r.ambiguousColumns }

def setJoinColumnLookup (r : QueryResult) (aliases : AliasMap) : QueryResult :=
  let sources := qualifiedSources r.columns aliases
  let qualified := sources.foldl (fun r s => r.addColumnLookup s.1 s.2.2) r.setBasicColumnLookup
  (sources.map (·.2.1)).dedup.foldl (setUnqualified sources) qualified

/-! ## Conditions of joins -/

/-- A table of a join, with one of its rows. -/
structure JoinSide where
  schema : Schema
  aliases : AliasMap
  row : TableRow

/-- `resolve_name`. -/
def resolveName (aliases : AliasMap) (tableAlias columnName : String) : String :=
  if tableAlias = "" then columnName
  else (aliases.lookup (tableAlias ++ "." ++ columnName)).getD columnName

def JoinSide.value (side : JoinSide) (name : String) : Option Value :=
  (side.schema.columnIndex name).bind fun i => side.row.values[i]?

section Conditions

variable (texts : ValueTexts)

/-- The left operand is a column of the right table: whatever the right operand is, its text is
read as a value. -/
def compareRightColumn (column : Column) (side : JoinSide) (name columnName : String)
    (position : Nat) (op : QueryOperator) (right : QueryExpression) : Except QueryError Bool :=
  match side.value name with
  | none => .error (queryError "invalid column" columnName "" position)
  | some stored =>
    match texts.parseValue column right.literalText right.position with
    | .error e => .error (e.toQueryError "")
    | .ok value => .ok (compareWithOperator (Value.compareValues stored value) op)

def compareLeftColumn (column : Column) (stored : Value) (rightSide : JoinSide)
    (op : QueryOperator) (right : QueryExpression) : Except QueryError Bool :=
  match right with
  | .columnReference tableAlias name _ position =>
    let rightName := resolveName rightSide.aliases tableAlias name
    match rightSide.schema.findColumn rightName with
    | none => .error (queryError "unknown column" name "" position)
    | some _ =>
      match rightSide.value rightName with
      | none => .error (queryError "invalid column" name "" position)
      | some value => .ok (compareWithOperator (Value.compareValues stored value) op)
  | right =>
    match texts.parseValue column right.literalText right.position with
    | .error e => .error (e.toQueryError "")
    | .ok value =>
      if value.matchesColumn column then
        .ok (compareWithOperator (Value.compareValues stored value) op)
      else
        .error (queryError ("invalid WHERE value for column " ++ column.name) right.literalText ""
          right.position)

def joinComparisonMatches (leftSide rightSide : JoinSide) (left : QueryExpression)
    (op : QueryOperator) (right : QueryExpression) : Except QueryError Bool :=
  match left with
  | .columnReference tableAlias name _ position =>
    let leftName := resolveName leftSide.aliases tableAlias name
    match leftSide.schema.findColumn leftName with
    | none =>
      let rightName := resolveName rightSide.aliases tableAlias name
      match rightSide.schema.findColumn rightName with
      | none => .error (queryError "unknown column" name "" position)
      | some column => compareRightColumn texts column rightSide rightName name position op right
    | some column =>
      match leftSide.value leftName with
      | none => .error (queryError "invalid column" name "" position)
      | some stored => compareLeftColumn texts column stored rightSide op right
  | left => .error (queryError "expected column" left.label "" left.position)

/-- Subqueries are not resolved here; `ANY` and `ALL` have their own message. -/
def joinConditionMatches (leftSide rightSide : JoinSide) : QueryCondition → Except QueryError Bool
  | .comparison left op right => joinComparisonMatches texts leftSide rightSide left op right
  | .subquery _ .isIn _ => .error (queryError "unsupported JOIN condition" "")
  | .subquery _ _ _ => .error (queryError "invalid WHERE condition" "")
  | .rightValues _ .isIn _ => .error (queryError "unsupported JOIN condition" "")
  | .rightValues _ _ _ => .error (queryError "invalid WHERE condition" "")
  | .existsSubquery _ => .error (queryError "unsupported JOIN condition" "")
  | .existsResult _ => .error (queryError "unsupported JOIN condition" "")
  | .not c => do
    let matched ← joinConditionMatches leftSide rightSide c
    pure (!matched)
  | .and left right => do
    if ← joinConditionMatches leftSide rightSide left then
      joinConditionMatches leftSide rightSide right
    else pure false
  | .or left right => do
    if ← joinConditionMatches leftSide rightSide left then pure true
    else joinConditionMatches leftSide rightSide right

end Conditions

def naturalJoinMatches (leftSide rightSide : JoinSide) : Bool :=
  leftSide.schema.columns.all fun c =>
    match rightSide.schema.findColumn c.name with
    | none => true
    | some _ =>
      match leftSide.value c.name, rightSide.value c.name with
      | some left, some right => Value.compareValues left right == .eq
      | _, _ => false

/-! ## Indexes in joins -/

def resolvedJoinColumn (e : QueryExpression) (target other : Schema) (targetAliases : AliasMap) :
    Option String :=
  match e with
  | .columnReference tableAlias name _ _ =>
    if tableAlias ≠ "" then targetAliases.lookup (tableAlias ++ "." ++ name)
    else if (target.findColumn name).isNone then none
    else if (other.findColumn name).isSome then none
    else some name
  | _ => none

/-- The two columns that an `ON` equates, left and right. -/
def indexedJoinLookup (condition : Option QueryCondition) (left right : Schema)
    (leftAliases rightAliases : AliasMap) : Option (String × String) :=
  match condition with
  | some (.comparison l .equal r) =>
    match resolvedJoinColumn l left right leftAliases, resolvedJoinColumn r right left rightAliases with
    | some leftColumn, some rightColumn => some (leftColumn, rightColumn)
    | _, _ =>
      match resolvedJoinColumn r left right leftAliases,
        resolvedJoinColumn l right left rightAliases with
      | some leftColumn, some rightColumn => some (leftColumn, rightColumn)
      | _, _ => none
  | _ => none

/-! ## Joins -/

/-- Where the loop over the joins has come to. -/
structure JoinState where
  rows : List TableRow
  schema : Schema
  aliases : AliasMap

/-- The right table of a join, as the loop prepares it. -/
structure RightTable where
  schema : Schema
  aliases : AliasMap
  addedColumns : List Column
  rows : List TableRow

section Loops

variable (env : SelectEnv) (state : JoinState) (join : QueryJoin) (right : RightTable)

/-- The right rows that are tried for a left row. -/
def candidateRows (leftRow : TableRow) : List TableRow :=
  let lookup :=
    if join.type = .inner ∨ join.type = .left then
      indexedJoinLookup join.condition state.schema right.schema state.aliases right.aliases
    else none
  match lookup with
  | none => right.rows
  | some (leftColumn, rightColumn) =>
    match JoinSide.value ⟨state.schema, state.aliases, leftRow⟩ leftColumn with
    | none => right.rows
    | some value => (env.findRowsByIndex join.tableName rightColumn value).getD right.rows

def includesRow (leftRow rightRow : TableRow) : Except QueryError Bool :=
  let leftSide : JoinSide := ⟨state.schema, state.aliases, leftRow⟩
  let rightSide : JoinSide := ⟨right.schema, right.aliases, rightRow⟩
  match join.type with
  | .cross => .ok true
  | .natural => .ok (naturalJoinMatches leftSide rightSide)
  | _ =>
    match join.condition with
    | none => .ok true
    | some condition =>
      match joinConditionMatches env.texts leftSide rightSide condition with
      | .error e => .error { e with source := env.command }
      | .ok matched => .ok matched

def combinedValues (leftRow rightRow : TableRow) : List Value :=
  leftRow.values ++ (rightRow.values.zip right.schema.columns).filterMap fun v =>
    if join.type = .natural ∧ (state.schema.findColumn v.2.name).isSome then none else some v.1

/-- The rows of one left row with its matching candidates. -/
def matchedRows (leftRow : TableRow) : List TableRow → Except QueryError (List TableRow)
  | [] => .ok []
  | rightRow :: candidates => do
    let included ← includesRow env state join right leftRow rightRow
    let rest ← matchedRows leftRow candidates
    pure (if included then
      { leftRow with values := combinedValues state join right leftRow rightRow } :: rest else rest)

def joinRows : List TableRow → Except QueryError (List TableRow)
  | [] => .ok []
  | leftRow :: rows => do
    let matched ← matchedRows env state join right leftRow
      (candidateRows env state join right leftRow)
    let rest ← joinRows rows
    pure (if join.type = .left ∧ matched = [] then
      { leftRow with
        values := leftRow.values ++ right.addedColumns.map fun _ => Value.null } :: rest
      else matched ++ rest)

end Loops

/-- One join. -/
def joinStep (env : SelectEnv) (state : JoinState) (join : QueryJoin) :
    Option (Except QueryError JoinState) :=
  match env.loadSchema join.tableName with
  | none => some (.error (commandError env.command "unknown table" join.tableName))
  | some rightSchema =>
    let rightAlias := if join.tableAlias = "" then join.tableName else join.tableAlias
    match joinColumnsForRightSide state.schema rightSchema join.type with
    | none => none
    | some addedColumns =>
      let right : RightTable :=
        { schema := rightSchema, aliases := buildAliasMap rightAlias rightSchema, addedColumns,
          rows := (env.scanRows join.tableName).1 }
      match joinRows env state join right state.rows with
      | .error e => some (.error e)
      | .ok rows =>
        (mergedJoinSchema state.schema addedColumns).map fun schema =>
          .ok { rows, schema,
                aliases := buildJoinAliasMap state.aliases rightAlias state.schema rightSchema
                  join.type }

def joinAll (env : SelectEnv) : JoinState → List QueryJoin → Option (Except QueryError JoinState)
  | state, [] => some (.ok state)
  | state, join :: joins =>
    match joinStep env state join with
    | some (.ok state) => joinAll env state joins
    | other => other

/-- `none` where a constructor throws. -/
def executeJoin (env : SelectEnv) (tableName tableAlias : String) (joins : List QueryJoin) :
    Option QueryResult :=
  match env.loadSchema tableName with
  | none => some (failed (commandError env.command "unknown table" tableName))
  | some schema =>
    match joinAll env
        { rows := (env.scanRows tableName).1, schema,
          aliases := buildAliasMap (if tableAlias = "" then tableName else tableAlias) schema }
        joins with
    | none => none
    | some (.error e) => some (failed e)
    | some (.ok state) =>
      some (setJoinColumnLookup
        { columns := tableColumns state.schema,
          rows := state.rows.map (tableRow env.texts state.schema),
          rowCount := state.rows.length } state.aliases)

end ScratchDb.Select
