import ScratchDb.Parser.Cursor
import ScratchDb.Select.Syntax

/-!
# Parsing conditions

Model of the part of the class `Parser` of `src/query/query_parser.cpp` that
reads expressions and conditions. The parser of whole texts, which a subquery
calls again, is a parameter here.
-/

namespace ScratchDb.QueryParser

open Select

/-- What `ALTER TABLE` does. -/
inductive AlterAction where
  | add (c : ConstraintDefinition)
  | drop (id : Nat)

inductive InsertSource where
  | select (query : ParsedQuery)
  | rows (valueRows : List String)

inductive UpdateSet where
  | values (text : String)
  | assignments (assignments : List (String × String))

/-- A `ParsedQuery`, with the fields that its type uses. -/
inductive ParsedCommand where
  | exit
  | help
  | showDatabases
  | showTables
  | showIndexes (tableName : String)
  | createDatabase (databaseName : String)
  | useDatabase (databaseName : String)
  | createTable (tableName : String) (ifNotExists : Bool) (columns : List Column)
      (constraints : List ConstraintDefinition) (storageMode : TableStorageMode)
  | createIndex (indexName tableName indexColumn : String) (uniqueIndex : Bool)
  | dropDatabase (databaseName : String)
  | dropTable (tableName : String)
  | dropIndex (indexName tableName : String)
  | alterTable (tableName : String) (action : AlterAction)
  | describeTable (tableName : String)
  | insertRow (tableName : String) (insertColumns : List String) (source : InsertSource)
  | selectAll (query : ParsedQuery)
  | deleteRow (tableName : String) (condition : Select.QueryCondition)
  | updateRow (tableName : String) (set : UpdateSet) (condition : Select.QueryCondition)
  | beginTransaction
  | commitTransaction
  | rollbackTransaction

/-- `parse_with_error` of a text, with the calls it made. -/
abbrev ParseText := List Char → Except Stop ParsedCommand × List Call

/-! ## Subqueries -/

/-- `QueryParser::parse_with_error` of a part of the command that begins at `start`. -/
def parseNested (parseText : ParseText) (text : List Char) (start : Nat) :
    Parser ParsedCommand := fun s =>
  let calls := (parseText text).2 ++ s.calls
  match (parseText text).1 with
  | .ok query => (.ok query, { s with calls })
  | .error (.error e) => (.error (.error { e with position := e.position + start }), { s with calls })
  | .error (.escape e) => (.error (.escape e), { s with calls })

/-- The `SELECT` between a parenthesis and the one that closes it, with its text and the position
of the first. -/
def parseSelectText (parseText : ParseText) (what : String) (opened : Token) :
    Parser (ParsedQuery × String × Nat) := do
  let start := opened.position + 1
  let text ← textToClose start
  match ← parseNested parseText text start with
  | .selectAll query => pure (query, String.ofList text, opened.position)
  | _ => fail (what ++ " must be SELECT") (String.ofList text) start

def parseSubquery (parseText : ParseText) : Parser (ParsedQuery × String × Nat) := do
  match ← matchedToken (matchType .leftParen) with
  | some opened => parseSelectText parseText "subquery" opened
  | none => expected "("

def parseSubqueryExpression (parseText : ParseText) : Parser Select.QueryExpression := do
  let (query, text, position) ← parseSubquery parseText
  pure (.scalarSubquery text query position)

/-! ## Expressions -/

def aggregateFromText (text : String) : Option QueryAggregateFunction :=
  if text = "MAX" then some .max
  else if text = "MIN" then some .min
  else if text = "AVG" then some .avg
  else if text = "SUM" then some .sum
  else if text = "COUNT" then some .count
  else none

def scalarFromText (text : String) : Option QueryScalarFunction :=
  if text = "LENGTH" then some .length
  else if text = "UPPER" then some .upper
  else if text = "LOWER" then some .lower
  else none

/-- What the next token is the name of. -/
def nextNames {α : Type} (fromText : String → Option α) : Parser (Option α) := do
  if ← atEnd then pure none
  else
    let t ← token
    pure (fromText t.text)

/-- The position of the next token. -/
def positionHere : Parser Nat := do
  if ← atEnd then pure (← Prog.get).command.length
  else
    let t ← token
    pure t.position

/-- The position of the token before, where there is one. -/
def positionBefore (otherwise : Nat) : Parser Nat := do
  match ← previous with
  | none => pure otherwise
  | some t => pure t.position

/-- `parse_column_reference`: the alias of a table, which may be missing, and the column. -/
def parseColumnReference (label : String) : Parser (String × String) := do
  let first ← readIdentifier label
  if ← matchType .dot then
    let second ← readIdentifier label
    pure (first, second)
  else
    pure ("", first)

/-- What an aggregate is of: `COUNT` may be of all rows. -/
def parseAggregatedColumn (function : QueryAggregateFunction) (label : String) :
    Parser (String × String) := do
  if function = .count then
    if ← matchType .star then pure ("", "*") else parseColumnReference label
  else
    parseColumnReference label

/-- The parentheses after an aggregate. -/
def parseAggregated (function : QueryAggregateFunction) (label : String) :
    Parser (String × String) := do
  expectType .leftParen "("
  let column ← parseAggregatedColumn function label
  expectType .rightParen ")"
  pure column

def parseColumnExpression (label : String) : Parser Select.QueryExpression := do
  match ← nextNames aggregateFromText with
  | some function =>
    let t ← takeToken
    let (tableAlias, name) ← parseAggregated function label
    pure (.aggregate function tableAlias name t.position)
  | none =>
    let (tableAlias, name) ← parseColumnReference label
    let position ← positionBefore (← Prog.get).command.length
    pure (.columnReference tableAlias name "" position)

/-- `parse_value_expression`, which reads a token without a look whether there is one. -/
def parseValueExpression (parseText : ParseText) : Parser Select.QueryExpression := do
  let t ← token
  if t.type = .leftParen then parseSubqueryExpression parseText
  else
    advance
    if t.type = .word then
      if ← matchType .dot then
        let name ← readIdentifier "column name"
        pure (.columnReference t.text name (t.text ++ "." ++ name) t.position)
      else if t.text ≠ "NULL" then pure (.columnReference "" t.text t.text t.position)
      else pure (.literal t.text t.position)
    else
      pure (.literal t.text t.position)

/-! ## Conditions -/

def operatorFromText (text : String) : Option QueryOperator :=
  if text = "=" then some .equal
  else if text = "!=" then some .notEqual
  else if text = ">" then some .greater
  else if text = "<" then some .less
  else if text = ">=" then some .greaterEqual
  else if text = "<=" then some .lessEqual
  else none

def parseOperator : Parser QueryOperator := do
  if ← atEnd then expected "operator"
  else
    let t ← token
    if t.type ≠ .op then expected "operator"
    else
      advance
      match operatorFromText t.text with
      | some op => pure op
      | none => fail "unknown operator" t.text t.position

/-- `EXISTS` and `IN`, `ANY` and `ALL` are followed by a subquery. -/
def parseExists (parseText : ParseText) : Parser Select.QueryCondition := do
  let (query, _) ← parseSubquery parseText
  pure (.existsSubquery query)

def parseSubqueryTest (parseText : ParseText) (left : Select.QueryExpression)
    (test : SubqueryTest) : Parser Select.QueryCondition := do
  let (query, _) ← parseSubquery parseText
  pure (.subquery left test query)

/-- A bound of a `BETWEEN`. -/
def parseBound (parseText : ParseText) : Parser Select.QueryExpression := do
  noteCall (.bound (← tokensLeft))
  parseValueExpression parseText

/-- What follows the column of a comparison. -/
def parseAfterColumn (parseText : ParseText) (left : Select.QueryExpression) :
    Parser Select.QueryCondition := do
  if ← matchText "BETWEEN" then
    let lower ← parseBound parseText
    expectText "AND"
    let upper ← parseBound parseText
    pure (.and (.comparison left .greaterEqual lower) (.comparison left .lessEqual upper))
  else if ← matchText "NOT" then
    expectText "IN"
    let inner ← parseSubqueryTest parseText left .isIn
    pure (.not inner)
  else if ← matchText "IN" then parseSubqueryTest parseText left .isIn
  else
    let op ← parseOperator
    if ← matchText "ANY" then parseSubqueryTest parseText left (.any op)
    else if ← matchText "ALL" then parseSubqueryTest parseText left (.all op)
    else if ← atEnd then failAtEnd "expected value"
    else
      let right ← parseValueExpression parseText
      pure (.comparison left op right)

/-- `parse_comparison`, with the functions that it calls on what is nested in it. -/
def parseComparisonWith (parseText : ParseText) (orExpression comparison :
    Parser Select.QueryCondition) : Parser Select.QueryCondition := do
  if ← matchType .leftParen then
    let child ← orExpression
    expectType .rightParen ")"
    pure child
  else if ← matchText "NOT" then
    if ← matchText "EXISTS" then
      let child ← parseExists parseText
      pure (.not child)
    else
      let child ← comparison
      pure (.not child)
  else if ← matchText "EXISTS" then parseExists parseText
  else
    let left ← parseColumnExpression "column name"
    parseAfterColumn parseText left

/-- The loop over conditions with an operator between them. -/
def chainLoop (operator : String)
    (node : Select.QueryCondition → Select.QueryCondition → Select.QueryCondition)
    (operand : Parser Select.QueryCondition) : Nat → Select.QueryCondition →
      Parser Select.QueryCondition
  | 0, _ => escape .outOfTurns
  | turns + 1, left => do
    if ← matchText operator then
      let right ← operand
      chainLoop operator node operand turns (node left right)
    else
      pure left

def parseChain (operator : String)
    (node : Select.QueryCondition → Select.QueryCondition → Select.QueryCondition)
    (operand : Parser Select.QueryCondition) : Parser Select.QueryCondition := do
  let left ← operand
  chainLoop operator node operand ((← tokensLeft) + 1) left

def parseAndExpressionWith (comparison : Parser Select.QueryCondition) :
    Parser Select.QueryCondition :=
  parseChain "AND" .and comparison

def parseOrExpressionWith (comparison : Parser Select.QueryCondition) :
    Parser Select.QueryCondition :=
  parseChain "OR" .or (parseAndExpressionWith comparison)

/-- `parse_comparison`, for so many levels of parentheses and `NOT`. -/
def parseComparison (parseText : ParseText) : Nat → Parser Select.QueryCondition
  | 0 => escape .outOfTurns
  | levels + 1 =>
    parseComparisonWith parseText (parseOrExpressionWith (parseComparison parseText levels))
      (parseComparison parseText levels)

/-- Each level takes a token, so as many levels as tokens are left suffice. -/
def parseConditionExpression (parseText : ParseText) : Parser Select.QueryCondition := do
  parseOrExpressionWith (parseComparison parseText ((← tokensLeft) + 1))

end ScratchDb.QueryParser
