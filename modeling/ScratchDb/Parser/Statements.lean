import ScratchDb.Parser.Conditions

/-!
# Parsing statements

Model of the rest of the class `Parser` and of `QueryParser::parse_with_error`
of `src/query/query_parser.cpp`.
-/

namespace ScratchDb.QueryParser

open Select

/-! ## Selects -/

section Select

variable (parseText : ParseText)

/-- `AS` and an alias, which may be missing. -/
def parseAlias (label : String) : Parser String := do
  if ← matchText "AS" then readIdentifier label else pure ""

/-- The name of a table, and its alias. -/
def parseTableReference : Parser (String × String) := do
  match ← matchedToken (matchType .leftParen) with
  | some opened => fail "derived table is only allowed after FROM" "(" opened.position
  | none =>
    let name ← readIdentifier "table name"
    let tableAlias ← parseAlias "table alias"
    pure (name, tableAlias)

/-- What follows `FROM`: a table or a derived table, and its alias. -/
def parseFromSource : Parser (String × String × Option ParsedQuery) := do
  match ← matchedToken (matchType .leftParen) with
  | some opened =>
    let (query, _) ← parseSelectText parseText "derived table" opened
    let _ ← matchText "AS"
    let tableAlias ← readIdentifier "table alias"
    pure ("", tableAlias, some query)
  | none =>
    let (name, tableAlias) ← parseTableReference
    pure (name, tableAlias, none)

/-- The part of a selected column before its alias. -/
def parseSelected : Parser SelectedColumn := do
  let position ← positionHere
  match ← nextNames aggregateFromText with
  | some aggregate =>
    advance
    let (tableAlias, columnName) ← parseAggregated aggregate "selected column"
    pure { tableAlias, columnName, aggregate, position }
  | none =>
    match ← nextNames scalarFromText with
    | some scalarFunction =>
      advance
      expectType .leftParen "("
      let (tableAlias, columnName) ← parseColumnReference "selected column"
      expectType .rightParen ")"
      pure { tableAlias, columnName, scalarFunction, position }
    | none =>
      let (tableAlias, columnName) ← parseColumnReference "selected column"
      pure { tableAlias, columnName, position := ← positionBefore position }

def parseSelectedColumn : Parser SelectedColumn := do
  let selected ← parseSelected
  let columnAlias ← parseAlias "column alias"
  pure { selected with columnAlias }

/-- Whether all columns are selected, or else which. -/
def parseSelectList : Parser (Bool × List SelectedColumn) := do
  if ← matchType .star then pure (true, [])
  else
    let columns ← listOf parseSelectedColumn
    pure (false, columns)

/-- A column of `GROUP BY` or `ORDER BY`. -/
def parsePlainColumn (label : String) : Parser SelectedColumn := do
  let position ← positionHere
  let (tableAlias, columnName) ← parseColumnReference label
  pure { tableAlias, columnName, position := ← positionBefore position }

def parseOrderByColumn : Parser OrderByColumn := do
  let column ← parsePlainColumn "order column"
  if ← matchText "ASC" then pure { column }
  else if ← matchText "DESC" then pure { column, descending := true }
  else pure { column }

def parseLimit : Parser Nat := do
  if ← atEnd then failAtEnd "expected LIMIT count"
  else
    let t ← takeToken
    if t.type ≠ .number then fail "invalid LIMIT count" t.text t.position
    else
      -- the exceptions of `std::stoull` are caught here
      match stoull t.text.toList, scanNumber t.text.toList with
      | .ok limit, some (_, _, []) => pure limit
      | _, _ => fail "invalid LIMIT count" t.text t.position

/-- A condition after a word, which may be missing. -/
def parseConditionAfter (word : String) : Parser (Option Select.QueryCondition) := do
  if ← matchText word then
    let condition ← parseConditionExpression parseText
    pure (some condition)
  else
    pure none

/-- A joined table, and its condition. -/
def parseJoined (type : QueryJoinType) : Parser QueryJoin := do
  let (tableName, tableAlias) ← parseTableReference
  let condition ← parseConditionAfter parseText "ON"
  pure { type, tableName, tableAlias, condition }

/-- What follows `LEFT`, `RIGHT` or `JOIN`. -/
def parseConditionJoin : Parser QueryJoin := do
  let word := (← previous).elim "" Token.text
  if word = "LEFT" then
    expectText "JOIN"
    parseJoined parseText .left
  else if word = "RIGHT" then
    expectText "JOIN"
    parseJoined parseText .right
  else
    parseJoined parseText .inner

/-- What follows `NATURAL`. -/
def parseNaturalJoin : Parser QueryJoin := do
  expectText "JOIN"
  let (tableName, tableAlias) ← parseTableReference
  pure { type := .natural, tableName, tableAlias, condition := none }

def joinLoop : Nat → Parser (List QueryJoin)
  | 0 => escape .outOfTurns
  | turns + 1 => do
    if ← matchType .comma then itemAnd (parseJoined parseText .cross) (joinLoop turns)
    else if ← matchOneOf ["LEFT", "RIGHT", "JOIN"] then
      itemAnd (parseConditionJoin parseText) (joinLoop turns)
    else if ← matchText "NATURAL" then itemAnd parseNaturalJoin (joinLoop turns)
    else pure []

def parseJoins : Parser (List QueryJoin) := do
  joinLoop parseText ((← tokensLeft) + 1)

/-- The columns after a word and `BY`, which may be missing. -/
def parseBy {α : Type} (word : String) (column : Parser α) : Parser (List α) := do
  if ← matchText word then
    expectText "BY"
    listOf column
  else
    pure []

def parseLimitClause : Parser (Option Nat) := do
  if ← matchText "LIMIT" then
    let limit ← parseLimit
    pure (some limit)
  else
    pure none

def parseSingleSelect : Parser ParsedQuery := do
  let (selectAll, selectedColumns) ← parseSelectList
  expectText "FROM"
  let (tableName, tableAlias, derivedTable) ← parseFromSource parseText
  let joins ← parseJoins parseText
  let condition ← parseConditionAfter parseText "WHERE"
  let groupByColumns ← parseBy "GROUP" (parsePlainColumn "group column")
  let havingCondition ← parseConditionAfter parseText "HAVING"
  let orderByColumns ← parseBy "ORDER" parseOrderByColumn
  let limitCount ← parseLimitClause
  pure
    { tableName, tableAlias, derivedTable, selectAll, selectedColumns, groupByColumns,
      orderByColumns, condition, havingCondition, joins, commonTableExpressions := [],
      compound := none, limitCount }

def parseQuantifier : Parser QuerySetQuantifier := do
  if ← matchText "ALL" then pure .all
  else
    let _ ← matchText "SOME"
    pure .some

/-- `UNION` and `INTERSECT` with what follows them. -/
def compoundLoop : Nat → Parser (Option QueryCompound)
  | 0 => escape .outOfTurns
  | turns + 1 => do
    match ← matchedToken (matchOneOf ["UNION", "INTERSECT"]) with
    | some word =>
      let operator : QueryCompoundOperator :=
        if word.text = "UNION" then .unionOp else .intersectOp
      let quantifier ← parseQuantifier
      expectText "SELECT"
      let query ← parseSingleSelect parseText
      let compound ← compoundLoop turns
      pure (some { operator, quantifier, query := { query with compound } })
    | none => pure none

def parseCompoundSelect : Parser ParsedQuery := do
  let query ← parseSingleSelect parseText
  let compound ← compoundLoop parseText ((← tokensLeft) + 1)
  endOrError { query with compound }

def parseSelect : Parser ParsedCommand := do
  let query ← parseCompoundSelect parseText
  pure (.selectAll query)

def parseCommonTableExpression : Parser QueryCommonTableExpression := do
  let name ← readIdentifier "common table expression name"
  expectText "AS"
  let (query, _) ← parseSubquery parseText
  pure { name, query }

def parseWith : Parser ParsedCommand := do
  let commonTableExpressions ← listOf (parseCommonTableExpression parseText)
  expectText "SELECT"
  let query ← parseCompoundSelect parseText
  pure (.selectAll { query with commonTableExpressions })

end Select

/-! ## Tables -/

/-- `parse_uint16`, which catches the exceptions of `std::stoul`. -/
def parseUint16 (text : String) : Option Nat :=
  match stoull text.toList, scanNumber text.toList with
  | .ok n, some (_, _, []) => if n < 2 ^ 16 then some n else none
  | _, _ => none

def parseUint8 (text : String) : Option Nat :=
  (parseUint16 text).filter (· < 2 ^ 8)

/-- A constructor of `Column`, which may throw. -/
def makeColumn (name : String) (type : ColumnType) (maxSize precision scale : Nat) :
    Parser Column :=
  match Column.make name type true maxSize precision scale with
  | some column => pure column
  | none => escape .column

/-- A number that `read` accepts. -/
def parseSize (read : String → Option Nat) (atEndMessage message : String) :
    Parser (Nat × Token) := do
  if ← atEnd then failAtEnd atEndMessage
  else
    let t ← takeToken
    if t.type = .number then
      match read t.text with
      | some n => pure (n, t)
      | none => fail message t.text t.position
    else
      fail message t.text t.position

def parseOneSize (typeName : String) (typeToken : Token) : Parser Nat := do
  if ← matchType .leftParen then
    let (size, _) ← parseSize parseUint16 "expected size" ("invalid " ++ typeName ++ " size")
    expectType .rightParen ")"
    pure size
  else
    fail (typeName ++ " requires a size, use " ++ typeName ++ "(n)") typeToken.text
      typeToken.position

def parseNumberFormat (typeToken : Token) : Parser (Nat × Nat) := do
  if ← matchType .leftParen then
    let (precision, precisionToken) ←
      parseSize parseUint8 "expected precision" "invalid NUMBER precision"
    expectType .comma ","
    let (scale, scaleToken) ← parseSize parseUint8 "expected scale" "invalid NUMBER scale"
    expectType .rightParen ")"
    if 18 < precision then
      fail "NUMBER precision exceeds maximum 18" precisionToken.text precisionToken.position
    else if precision < scale then
      fail "NUMBER scale cannot exceed precision" scaleToken.text scaleToken.position
    else pure (precision, scale)
  else
    fail "NUMBER requires precision and scale, use NUMBER(p, s)" typeToken.text typeToken.position

/-- A string column of the size that follows. -/
def parseSizedColumn (name typeName : String) (type : ColumnType) (typeToken : Token) :
    Parser Column := do
  let size ← parseOneSize typeName typeToken
  noteCall (.stringSize size)
  makeColumn name type size 0 0

def parseNumberColumn (name : String) (typeToken : Token) : Parser Column := do
  let (precision, scale) ← parseNumberFormat typeToken
  noteCall (.numberPrecision precision)
  makeColumn name .number (Column.fixedSize .number) precision scale

/-- The types without a size. -/
def plainType (text : String) : Option ColumnType :=
  if text = "INTEGER" then some .integer
  else if text = "CHAR" then some .character
  else if text = "DATE" then some .date
  else if text = "TIME" then some .time
  else if text = "DATETIME" then some .datetime
  else if text = "TEXT" then some .text
  else none

def plainSize (type : ColumnType) : Nat := if type = .text then 2048 else Column.fixedSize type

def parseColumnType (name : String) (t : Token) : Parser Column :=
  match plainType t.text with
  | some type => makeColumn name type (plainSize type) 0 0
  | none =>
    if t.text = "STRING" then parseSizedColumn name "STRING" .string t
    else if t.text = "VARSTRING" then parseSizedColumn name "VARSTRING" .varstring t
    else if t.text = "NUMBER" then parseNumberColumn name t
    else fail "unknown column type" t.text t.position

def parseNullability : Parser Bool := do
  if ← matchText "NULL" then pure true
  else if ← matchText "NOT" then
    expectText "NULL"
    pure false
  else
    pure true

def parseColumn : Parser Column := do
  let name ← readIdentifier "column name"
  if ← atEnd then failAtEnd "expected column type"
  else
    let t ← takeToken
    if lowercaseKeyword t then fail "keyword must be uppercase" t.text t.position
    else
      let column ← parseColumnType name t
      let nullable ← parseNullability
      pure { column with nullable }

def readColumnList (label : String) : Parser (List String) := do
  expectType .leftParen "("
  let columns ← listOf (readIdentifier label)
  expectType .rightParen ")"
  pure columns

/-- The one column of a foreign key. -/
def readOneColumn (label message : String) : Parser String := do
  match ← readColumnList label with
  | [column] => pure column
  | columns => do
    let position ← positionBefore (← Prog.get).command.length
    fail message (columns.headD "") position

/-- Tokens of a `CHECK` that are parts of it. -/
def isCheckPart (t : Token) : Bool :=
  t.type = .word || t.type = .number || t.type = .string || t.type = .op || t.type = .star

/-- The parts of a `CHECK` up to the next right parenthesis. -/
def checkLoop (isPart : Token → Bool) : Nat → Parser (List String)
  | 0 => escape .outOfTurns
  | turns + 1 => do
    match ← peek with
    | none => pure []
    | some t =>
      if t.type = .rightParen then pure []
      else
        advance
        let parts ← checkLoop isPart turns
        pure (if isPart t then t.text :: parts else parts)

def parseCheck (isPart : Token → Bool) (id : Nat) : Parser ConstraintDefinition := do
  expectType .leftParen "("
  let parts ← checkLoop isPart ((← tokensLeft) + 1)
  expectType .rightParen ")"
  pure { id, kind := .check, columns := [], args := parts }

def parseTableConstraint (id : Nat) : Parser ConstraintDefinition := do
  if ← matchText "PRIMARY" then
    expectText "KEY"
    let columns ← readColumnList "primary key column name"
    pure { id, kind := .primaryKey, columns, args := [] }
  else if ← matchText "UNIQUE" then
    let columns ← readColumnList "unique column name"
    pure { id, kind := .unique, columns, args := [] }
  else if ← matchText "FOREIGN" then
    expectText "KEY"
    let column ← readOneColumn "foreign key column name" "foreign key requires one column"
    expectText "REFERENCES"
    let refTable ← readIdentifier "referenced table name"
    let refColumn ← readOneColumn "referenced column name" "foreign key reference requires one column"
    pure { id, kind := .foreignKey, columns := [column], args := [refTable, refColumn] }
  else if ← matchText "CHECK" then parseCheck isCheckPart id
  else expected "constraint"

/-- What follows `PRIMARY` behind a column. -/
def parseColumnKey (name : String) (id : Nat) : Parser ConstraintDefinition := do
  expectText "KEY"
  pure { id, kind := .primaryKey, columns := [name], args := [] }

/-- What follows `REFERENCES` behind a column. -/
def parseReference (name : String) (id : Nat) : Parser ConstraintDefinition := do
  let refTable ← readIdentifier "referenced table name"
  expectType .leftParen "("
  let refColumn ← readIdentifier "referenced column name"
  expectType .rightParen ")"
  pure { id, kind := .foreignKey, columns := [name], args := [refTable, refColumn] }

/-- A left parenthesis is a part of a `CHECK` behind a column, too. -/
def isColumnCheckPart (t : Token) : Bool := isCheckPart t || t.type = .leftParen

/-- The constraints right behind a column, with the id of the first. -/
def columnConstraintLoop (name : String) : Nat → Nat → Parser (List ConstraintDefinition)
  | 0, _ => escape .outOfTurns
  | turns + 1, id => do
    let next := columnConstraintLoop name turns (id + 1)
    if ← matchText "PRIMARY" then itemAnd (parseColumnKey name id) next
    else if ← matchText "UNIQUE" then
      itemAnd (pure { id, kind := .unique, columns := [name], args := [] }) next
    else if ← matchText "REFERENCES" then itemAnd (parseReference name id) next
    else if ← matchText "CHECK" then itemAnd (parseCheck isColumnCheckPart id) next
    else pure []

def parseColumnConstraints (name : String) (id : Nat) : Parser (List ConstraintDefinition) := do
  columnConstraintLoop name ((← tokensLeft) + 1) id

/-- What `CREATE TABLE` has read of its columns and constraints. -/
structure TableParts where
  columns : List Column := []
  constraints : List ConstraintDefinition := []

/-- The next token is the first of a constraint of the table. -/
def startsTableConstraint (t : Option Token) : Bool :=
  t.any fun t =>
    t.text = "PRIMARY" || t.text = "UNIQUE" || t.text = "FOREIGN" || t.text = "CHECK"

/-- The loop over the definitions of `CREATE TABLE`, with the id of the next constraint. A comma may
stand before the closing parenthesis; a constraint of the table follows a column without a comma. -/
def definitionLoop : Nat → Nat → TableParts → Parser TableParts
  | 0, _, _ => escape .outOfTurns
  | turns + 1, id, parts => do
    if ← matchType .rightParen then pure parts
    else
      let column ← parseColumn
      let constraints ← parseColumnConstraints column.name id
      let id := id + constraints.length
      let parts : TableParts :=
        { columns := parts.columns ++ [column], constraints := parts.constraints ++ constraints }
      if ← matchType .comma then definitionLoop turns id parts
      else if ← matchType .rightParen then pure parts
      else
        let next ← peek
        if startsTableConstraint next then
          let c ← parseTableConstraint id
          let parts := { parts with constraints := parts.constraints ++ [c] }
          if ← matchType .comma then definitionLoop turns (id + 1) parts
          else if ← matchType .rightParen then pure parts
          else expected ", or )"
        else
          expected ", or )"

def parseStorageEngine : Parser TableStorageMode := do
  if ← matchText "ENGINE" then
    if ← matchType .op then
      match ← previous with
      | none => expected "="
      | some t =>
        if t.text ≠ "=" then expected "="
        else if ← matchText "MEMORY" then pure .memory
        else if ← matchText "DISK" then pure .disk
        else expected "MEMORY or DISK"
    else
      expected "="
  else
    pure .disk

def parseIfNotExists : Parser Bool := do
  if ← matchText "IF" then
    expectText "NOT"
    expectText "EXISTS"
    pure true
  else
    pure false

def parseCreateTable : Parser ParsedCommand := do
  let ifNotExists ← parseIfNotExists
  let name ← readIdentifier "table name"
  expectType .leftParen "("
  match ← matchedToken (matchType .rightParen) with
  | some closed => fail "expected column definition" ")" closed.position
  | none =>
    let parts ← definitionLoop ((← tokensLeft) + 1) 1 {}
    let storageMode ← parseStorageEngine
    endOrError (.createTable name ifNotExists parts.columns parts.constraints storageMode)

/-! ## Statements -/

/-- A command that is a type and one name. -/
def parseNamed (label : String) (command : String → ParsedCommand) : Parser ParsedCommand := do
  let name ← readIdentifier label
  endOrError (command name)

def parseShow : Parser ParsedCommand := do
  if ← matchText "DATABASES" then endOrError .showDatabases
  else if ← matchText "TABLES" then endOrError .showTables
  else if ← matchText "INDEXES" then
    expectText "FROM"
    parseNamed "table name" .showIndexes
  else
    expected "DATABASES, TABLES, or INDEXES"

def parseCreateIndex (unique : Bool) : Parser ParsedCommand := do
  let indexName ← readIdentifier "index name"
  expectText "ON"
  let tableName ← readIdentifier "table name"
  expectType .leftParen "("
  let columnName ← readIdentifier "column name"
  expectType .rightParen ")"
  endOrError (.createIndex indexName tableName columnName unique)

def parseCreate : Parser ParsedCommand := do
  if ← matchText "UNIQUE" then
    expectText "INDEX"
    parseCreateIndex true
  else if ← matchText "DATABASE" then parseNamed "database name" .createDatabase
  else if ← matchText "TABLE" then parseCreateTable
  else if ← matchText "INDEX" then parseCreateIndex false
  else expected "DATABASE, TABLE, or INDEX"

def parseDrop : Parser ParsedCommand := do
  if ← matchText "DATABASE" then parseNamed "database name" .dropDatabase
  else if ← matchText "TABLE" then parseNamed "table name" .dropTable
  else if ← matchText "INDEX" then
    let indexName ← readIdentifier "index name"
    expectText "ON"
    parseNamed "table name" (.dropIndex indexName)
  else
    expected "DATABASE, TABLE, or INDEX"

/-- The id after `DROP CONSTRAINT`. The exceptions of `std::stoull` are not caught. -/
def parseConstraintId : Parser Nat := do
  if ← atEnd then expected "constraint id"
  else
    let t ← token
    if t.type ≠ .number then expected "constraint id"
    else
      noteCall (.constraintId t.text)
      match stoull t.text.toList with
      | .ok id =>
        advance
        pure id
      | .error _ => escape .number

def parseAlter : Parser ParsedCommand := do
  expectText "TABLE"
  let name ← readIdentifier "table name"
  if ← matchText "ADD" then
    let c ← parseTableConstraint 1
    endOrError (.alterTable name (.add c))
  else if ← matchText "DROP" then
    expectText "CONSTRAINT"
    let id ← parseConstraintId
    endOrError (.alterTable name (.drop id))
  else
    expected "ADD or DROP"

section Statements

variable (parseText : ParseText)

def parseInsertColumns : Parser (List String) := do
  if ← matchType .leftParen then
    let columns ← listOf (readIdentifier "column name")
    expectType .rightParen ")"
    pure columns
  else
    pure []

def parseInsert : Parser ParsedCommand := do
  expectText "INTO"
  let name ← readIdentifier "table name"
  let columns ← parseInsertColumns
  if ← matchText "SELECT" then
    let query ← parseSingleSelect parseText
    endOrError (.insertRow name columns (.select query))
  else if ← matchText "VALUES" then
    let rows ← listOf parseParenthesizedBody
    endOrError (.insertRow name columns (.rows rows))
  else
    expected "VALUES or SELECT"

def parseWhere : Parser Select.QueryCondition := do
  expectText "WHERE"
  parseConditionExpression parseText

def parseDelete : Parser ParsedCommand := do
  expectText "FROM"
  let name ← readIdentifier "table name"
  let condition ← parseWhere parseText
  endOrError (.deleteRow name condition)

/-- The text that is assigned to a column. -/
def parseAssigned : Parser String := do
  match ← peek with
  | none => expected "value"
  | some t =>
    if t.type = .string ∨ t.type = .number ∨ t.type = .word then
      advance
      pure t.text
    else if t.type = .leftParen then parseParenthesizedBody
    else expected "value"

def parseAssignment : Parser (String × String) := do
  let name ← readIdentifier "column name"
  if ← matchType .op then
    match ← previous with
    | none => expected "="
    | some t =>
      if t.text ≠ "=" then expected "="
      else
        let text ← parseAssigned
        pure (name, text)
  else
    expected "="

def parseUpdateSet : Parser UpdateSet := do
  if ← matchText "VALUES" then
    let text ← parseParenthesizedBody
    pure (.values text)
  else
    let assignments ← listOf parseAssignment
    pure (.assignments assignments)

def parseUpdate : Parser ParsedCommand := do
  let name ← readIdentifier "table name"
  expectText "SET"
  let set ← parseUpdateSet
  let condition ← parseWhere parseText
  endOrError (.updateRow name set condition)

/-- The commands by their first words. -/
def parseKnown (first : Token) : Parser ParsedCommand := do
  if ← matchOneOf ["EXIT", "QUIT"] then endOrError .exit
  else if ← matchText "HELP" then endOrError .help
  else if ← matchText "BEGIN" then endOrError .beginTransaction
  else if ← matchText "COMMIT" then endOrError .commitTransaction
  else if ← matchText "ROLLBACK" then endOrError .rollbackTransaction
  else if ← matchText "SHOW" then parseShow
  else if ← matchText "CREATE" then parseCreate
  else if ← matchText "DROP" then parseDrop
  else if ← matchText "ALTER" then parseAlter
  else if ← matchText "USE" then parseNamed "database name" .useDatabase
  else if ← matchOneOf ["DESCRIBE", "DESC"] then parseNamed "table name" .describeTable
  else if ← matchText "INSERT" then parseInsert parseText
  else if ← matchText "SELECT" then parseSelect parseText
  else if ← matchText "WITH" then parseWith parseText
  else if ← matchText "DELETE" then parseDelete parseText
  else if ← matchText "UPDATE" then parseUpdate parseText
  else fail "unknown command" first.text first.position

/-- `Parser::parse`. -/
def parse : Parser ParsedCommand := do
  if ← atEnd then fail "empty query" "" 0
  else
    let first ← token
    if lowercaseKeyword first then fail "keyword must be uppercase" first.text first.position
    else parseKnown parseText first

end Statements

/-! ## Texts -/

/-- `parse_with_error` with so many levels of subqueries. -/
def parseLevels : Nat → ParseText
  | 0, _ => (.error (.escape .outOfTurns), [])
  | levels + 1, command =>
    match tokenize command with
    | .error e => (.error (.error e), [])
    | .ok tokens =>
      let run := parse (parseLevels levels) { command, rest := tokens, previous := none, calls := [] }
      (run.1, run.2.calls)

/-- `QueryParser::parse_with_error`. A subquery is shorter than the text it is in. -/
def parseWithError : ParseText := fun command => parseLevels (command.length + 1) command

end ScratchDb.QueryParser
