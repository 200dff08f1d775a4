import ScratchDb.Catalog.SchemaText
import ScratchDb.Query.Database

/-!
# Statements that modify tables

Model of the modifying statements of `src/query/query_executor.cpp` for a
selected database. A statement that returns an error result stops with it. The
parser of single values, which the statements only call, is a parameter.
-/

namespace ScratchDb

structure QueryError where
  message : String
  token : String
  source : String
  position : Nat
deriving DecidableEq, Repr

/-- A result without rows. -/
structure QueryResult where
  message : String
  rowCount : Nat
deriving DecidableEq, Repr

structure ValueParseError where
  message : String
  token : String
  position : Nat

/-- What `ValueParser` offers: one value of a column, and a value list cut at its commas. -/
structure ValueParser where
  parseValue : Column → String → Nat → Except ValueParseError Value
  splitCsv : String → Nat → List (String × Nat)

/-- The parser, on the two values of the examples for an INTEGER column. -/
def numbersParser : ValueParser where
  parseValue column text position :=
    if text = "1" then .ok (.integer 1)
    else
      .error
        { message := "invalid INTEGER value for column " ++ column.name, token := text, position }
  splitCsv text position := [(text, position)]

/-! ## Texts -/

/-- The position of the first occurrence of `token`, or 0. -/
def tokenPosition (command token : String) : Nat :=
  match (command.toList.tails.findIdx? fun t => token.toList.isPrefixOf t) with
  | some i => i
  | none => 0

def trimmed (text : List Char) : String :=
  String.ofList ((text.dropWhile isSpace).rdropWhile isSpace)

/-- The loop of `split_value_list`: what is read of the current value, last character first. -/
def splitValues : List Char → List Char → Bool → Nat → List String
  | [], current, _, _ => [trimmed current.reverse]
  | c :: cs, current, inString, depth =>
    if c = '\'' then splitValues cs (c :: current) (!inString) depth
    else if c = '(' ∧ ¬ inString then
      splitValues cs (c :: current) inString ((depth + 1) % 2 ^ 16)
    else if c = ')' ∧ ¬ inString ∧ 0 < depth then splitValues cs (c :: current) inString (depth - 1)
    else if c = ',' ∧ ¬ inString ∧ depth = 0 then
      trimmed current.reverse :: splitValues cs [] inString depth
    else splitValues cs (c :: current) inString depth

def splitValueList (text : String) : List String :=
  if text = "" then [] else splitValues text.toList [] false 0

def joinValueList (values : List String) : String := ", ".intercalate values

/-! ## Conditions -/

inductive QueryOperator where
  | equal
  | notEqual
  | greater
  | less
  | greaterEqual
  | lessEqual
deriving DecidableEq, Repr

def compareWithOperator (comparison : Ordering) : QueryOperator → Bool
  | .equal => comparison == .eq
  | .notEqual => comparison != .eq
  | .greater => comparison == .gt
  | .less => comparison == .lt
  | .greaterEqual => comparison != .lt
  | .lessEqual => comparison != .gt

inductive QueryExpression where
  | columnReference (tableAlias columnName : String) (position : Nat)
  /-- an aggregate, by its name -/
  | aggregate (name columnName : String) (position : Nat)
  | literal (text : String) (position : Nat)
deriving DecidableEq, Repr

namespace QueryExpression

def position : QueryExpression → Nat
  | .columnReference _ _ p => p
  | .aggregate _ _ p => p
  | .literal _ p => p

def literalText : QueryExpression → String
  | .literal text _ => text
  | _ => ""

def label : QueryExpression → String
  | .columnReference tableAlias name _ =>
    if tableAlias = "" then name else tableAlias ++ "." ++ name
  | .aggregate name column _ => name ++ "(" ++ column ++ ")"
  | .literal text _ => text

end QueryExpression

inductive SubqueryTest where
  | isIn
  | any (op : QueryOperator)
  | all (op : QueryOperator)
deriving DecidableEq, Repr

/-- A condition whose subqueries have been resolved. -/
inductive QueryCondition where
  | comparison (left right : QueryExpression) (op : QueryOperator)
  | subquery (left : QueryExpression) (test : SubqueryTest) (rightValues : List String)
  | existsSubquery (result : Bool)
  | not (c : QueryCondition)
  | and (left right : QueryCondition)
  | or (left right : QueryCondition)

section Statements

variable (parser : ValueParser) (command : String)

def ValueParseError.toQueryError (e : ValueParseError) (source : String) : QueryError :=
  { message := e.message, token := e.token, source, position := e.position }

/-- An error of the statement itself. -/
def errorResult (message token : String) : QueryError :=
  { message, token, source := command, position := tokenPosition command token }

/-- The column of a condition's left side, and the value that a row has there. -/
def leftColumn (schema : Schema) (row : TableRow) (left : QueryExpression) :
    Except QueryError (Column × Value) :=
  match left with
  | .columnReference _ name position =>
    match schema.columnIndex name with
    | none => .error { message := "unknown column", token := name, source := "", position }
    | some i =>
      match schema.columns[i]?, row.values[i]? with
      | some column, some value => .ok (column, value)
      | _, _ => .error { message := "invalid column", token := name, source := "", position }
  | left =>
    .error
      { message := "expected column", token := left.label, source := "", position := left.position }

def rowMatches (schema : Schema) (row : TableRow) (left right : QueryExpression)
    (op : QueryOperator) : Except QueryError Bool := do
  let (column, stored) ← leftColumn schema row left
  match right with
  | .columnReference _ name position =>
    match schema.columnIndex name with
    | none => .error { message := "unknown column", token := name, source := "", position }
    | some i =>
      match row.values[i]? with
      | none => .error { message := "invalid column", token := name, source := "", position }
      | some value => pure (compareWithOperator (Value.compareValues stored value) op)
  | right =>
    match parser.parseValue column right.literalText right.position with
    | .error e => .error (e.toQueryError "")
    | .ok value => pure (compareWithOperator (Value.compareValues stored value) op)

def quoteScalarIfNeeded (c : Column) (text : String) : String :=
  if c.type = .integer ∨ c.type = .number then text else "'" ++ text ++ "'"

/-- The comparisons of a row's value with the values of a subquery. -/
def subqueryMatches (column : Column) (stored : Value) (test : SubqueryTest) (position : Nat) :
    List String → Except QueryError (List Bool)
  | [] => .ok []
  | text :: texts =>
    match parser.parseValue column (quoteScalarIfNeeded column text) position with
    | .error e => .error (e.toQueryError "")
    | .ok value =>
      let comparison := Value.compareValues stored value
      let matched := match test with
        | .isIn => comparison == .eq
        | .any op => compareWithOperator comparison op
        | .all op => compareWithOperator comparison op
      (subqueryMatches column stored test position texts).map (matched :: ·)

def rowMatchesSubqueryValues (schema : Schema) (row : TableRow) (left : QueryExpression)
    (test : SubqueryTest) (rightValues : List String) : Except QueryError Bool := do
  let (column, stored) ← leftColumn schema row left
  let matched ← subqueryMatches parser column stored test left.position rightValues
  match test with
  | .all _ => pure (matched.all id)
  | _ => pure (matched.any id)

def rowMatchesCondition (schema : Schema) (row : TableRow) :
    QueryCondition → Except QueryError Bool
  | .comparison left right op => rowMatches parser schema row left right op
  | .subquery left test values => rowMatchesSubqueryValues parser schema row left test values
  | .existsSubquery result => .ok result
  | .not c => do
    let matched ← rowMatchesCondition schema row c
    pure (!matched)
  | .and left right => do
    if ← rowMatchesCondition schema row left then rowMatchesCondition schema row right
    else pure false
  | .or left right => do
    if ← rowMatchesCondition schema row left then pure true
    else rowMatchesCondition schema row right

/-- `condition` is a null pointer where a statement has no `WHERE`. -/
def matchesWhere (schema : Schema) (row : TableRow) (condition : Option QueryCondition) :
    Except QueryError Bool :=
  match condition with
  | none => .ok true
  | some c => rowMatchesCondition parser schema row c

/-! ## Constraints -/

def rowValueForColumn (schema : Schema) (values : List Value) (name : String) : Option Value :=
  (schema.columnIndex name).bind fun i => values[i]?

def violation (c : ConstraintDefinition) (token source : String) : QueryError :=
  { message := "constraint " ++ toString c.id ++ " " ++ c.kind.text ++ " violation", token, source,
    position := 0 }

def checkOperator (text : String) : Option QueryOperator :=
  if text = ">" then some .greater
  else if text = "<" then some .less
  else if text = ">=" then some .greaterEqual
  else if text = "<=" then some .lessEqual
  else if text = "!=" then some .notEqual
  else if text = "=" then some .equal
  else none

def rowSatisfiesCheckConstraint (schema : Schema) (values : List Value)
    (c : ConstraintDefinition) : Except QueryError Unit :=
  match c.args with
  | name :: op :: target :: _ =>
    match checkOperator op with
    | none =>
      .error { message := "unsupported check operator", token := op, source := "CHECK", position := 0 }
    | some op =>
      match rowValueForColumn schema values name with
      | none =>
        .error { message := "unknown check column", token := name, source := "CHECK", position := 0 }
      | some left =>
        match checkTarget name target with
        | .error e => .error e
        | .ok right =>
          if compareWithOperator (Value.compareValues left right) op then .ok ()
          else
            .error
              { message := "constraint " ++ toString c.id ++ " check violation", token := name,
                source := "CHECK", position := 0 }
  | _ => .ok ()
where
  /-- The right side: another column of the row, or a literal of the left column. -/
  checkTarget (name target : String) : Except QueryError Value :=
    match rowValueForColumn schema values target with
    | some value => .ok value
    | none =>
      match schema.findColumn name with
      | none =>
        .error { message := "unknown check column", token := name, source := "CHECK", position := 0 }
      | some column =>
        match parser.parseValue column target 0 with
        | .error e => .error (e.toQueryError "CHECK")
        | .ok value => .ok value

/-- Two rows agree on the columns of a key. -/
def agreeOn (schema : Schema) (columns : List String) (existing values : List Value) : Bool :=
  columns.all fun name =>
    match rowValueForColumn schema existing name, rowValueForColumn schema values name with
    | some x, some y => Value.compareValues x y == .eq
    | _, _ => false

/-- Look for another row that agrees with the values on a key. -/
def keyCallback (schema : Schema) (values : List Value) (ignore : Option RecordId)
    (c : ConstraintDefinition) : Bool → TableRow → Prog QueryError Database (Bool × Bool) :=
  fun _ row =>
    if ignore = some row.recordId then pure (true, false)
    else if agreeOn schema c.columns row.values values then pure (false, true)
    else pure (true, false)

/-- Look for a row with a value in the referenced column. -/
def foreignKeyCallback (refIndex : Nat) (value : Value) :
    Bool → TableRow → Prog QueryError Database (Bool × Bool) :=
  fun _ row =>
    match row.values[refIndex]? with
    | some stored =>
      if Value.compareValues stored value = .eq then pure (false, true) else pure (true, false)
    | none => pure (true, false)

/-- A primary key or unique constraint: no column is null, and no other row agrees on them. -/
def rowSatisfiesKey (name : String) (schema : Schema) (values : List Value)
    (ignore : Option RecordId) (c : ConstraintDefinition) : Prog QueryError Database Unit := do
  let error := violation c (c.columns.headD name) "constraint"
  if c.columns.any fun column => (rowValueForColumn schema values column).all Value.isNull then
    Prog.stop error
  else
    let (completed, found) ←
      Database.scanRows (keyCallback schema values ignore c) name false
    if ¬ completed ∨ found then Prog.stop error else pure ()

/-- A foreign key: a value that is not null is in the referenced column of some row. -/
def rowSatisfiesForeignKey (schema : Schema) (values : List Value) (c : ConstraintDefinition) :
    Prog QueryError Database Unit := do
  match c.columns, c.args with
  | [localName], refTable :: refName :: _ =>
    let error := violation c localName "foreign_key"
    match rowValueForColumn schema values localName with
    | none => pure ()
    | some value =>
      if value.isNull then
        pure ()
      else
        match schema.findColumn localName, ← Database.loadSchema refTable with
        | some localColumn, some refSchema =>
          match refSchema.columnIndex refName, refSchema.findColumn refName with
          | some refIndex, some refColumn =>
            if localColumn.type = refColumn.type ∧ localColumn.maxSize = refColumn.maxSize ∧
                localColumn.precision = refColumn.precision ∧
                localColumn.scale = refColumn.scale then
              let (_, matched) ←
                Database.scanRows (foreignKeyCallback refIndex value) refTable false
              if matched then pure () else Prog.stop error
            else Prog.stop error
          | _, _ => Prog.stop error
        | _, _ => Prog.stop error
  | _, _ => pure ()

def rowSatisfiesConstraint (name : String) (schema : Schema) (values : List Value)
    (ignore : Option RecordId) (c : ConstraintDefinition) : Prog QueryError Database Unit :=
  match c.kind with
  | .primaryKey => rowSatisfiesKey name schema values ignore c
  | .unique => rowSatisfiesKey name schema values ignore c
  | .foreignKey => rowSatisfiesForeignKey schema values c
  | .check =>
    match rowSatisfiesCheckConstraint parser schema values c with
    | .ok () => pure ()
    | .error e => Prog.stop e

def rowSatisfiesConstraints (name : String) (schema : Schema) (values : List Value)
    (ignore : Option RecordId) : List ConstraintDefinition → Prog QueryError Database Unit
  | [] => pure ()
  | c :: cs => do
    rowSatisfiesConstraint parser name schema values ignore c
    rowSatisfiesConstraints name schema values ignore cs

/-- Errors of constraints and conditions are shown with the command they are from. -/
def withSource {α : Type} (m : Prog QueryError Database α) : Prog QueryError Database α := fun db =>
  match m db with
  | (.error e, t) => (.error { e with source := command }, t)
  | (.ok a, t) => (.ok a, t)

def rowSatisfiesSchemaConstraints (name : String) (schema : Schema) (values : List Value)
    (ignore : Option RecordId) : Prog QueryError Database Unit :=
  withSource command (rowSatisfiesConstraints parser name schema values ignore schema.constraints)

/-! ## Rows -/

def parseParts (columns : List Column) (parts : List (String × Nat)) :
    Except ValueParseError (List Value) :=
  match columns, parts with
  | column :: columns, (text, position) :: parts =>
    match parser.parseValue column text position with
    | .error e => .error e
    | .ok value =>
      if value.matchesColumn column then (parseParts columns parts).map (value :: ·)
      else
        .error
          { message := "value does not match column " ++ column.name, token := text, position }
  | _, _ => .ok []

def parseRow (schema : Schema) (valuesText : String) (basePosition : Nat) :
    Except ValueParseError (List Value) :=
  let parts := parser.splitCsv valuesText basePosition
  if parts.length ≠ schema.columns.length then
    .error
      { message := "wrong value count: expected " ++ toString schema.columns.length ++ ", got " ++
          toString parts.length,
        token := valuesText, position := basePosition }
  else parseParts parser schema.columns parts

/-- The values of an `INSERT` with a column list, each at the place of its column. -/
def placeValues (schema : Schema) :
    List String → List String → List String → List String → Except QueryError (List String)
  | name :: names, value :: values, seen, ordered =>
    match schema.columnIndex name with
    | none => .error (errorResult command "unknown column" name)
    | some i =>
      if name ∈ seen then .error (errorResult command "duplicate column" name)
      else placeValues schema names values (name :: seen) (ordered.set i value)
  | _, _, _, ordered => .ok ordered

/-- Columns without a value get `NULL`, where they may. -/
def fillMissing (columns : List Column) (ordered : List String) : Except QueryError (List String) :=
  match columns, ordered with
  | column :: columns, value :: ordered =>
    if value ≠ "" then (fillMissing columns ordered).map (value :: ·)
    else if column.nullable then (fillMissing columns ordered).map ("NULL" :: ·)
    else .error (errorResult command "missing value for required column" column.name)
  | _, _ => .ok []

def orderValues (schema : Schema) (names values : List String) :
    Except QueryError (List String) := do
  let ordered ← placeValues command schema names values []
    (List.replicate schema.columns.length "")
  fillMissing command schema.columns ordered

/-! ## Statements -/

/-- The row of one value list of an `INSERT`. -/
def rowOfValues (schema : Schema) (insertColumns : List String) (valuesText : String) :
    Except QueryError (List Value) := do
  let orderedValues ←
    if insertColumns = [] then
      pure valuesText
    else
      let values := splitValueList valuesText
      if values.length ≠ insertColumns.length then
        .error (errorResult command
          ("wrong value count: expected " ++ toString insertColumns.length ++ ", got " ++
            toString values.length) valuesText)
      else
        pure (joinValueList (← orderValues command schema insertColumns values))
  match parseRow parser schema orderedValues (tokenPosition command valuesText) with
  | .error e => .error (e.toQueryError command)
  | .ok row => pure row

/-- Check a row and insert it: the common end of the loops of `INSERT`. -/
def insertChecked (name : String) (schema : Schema) (row : Except QueryError (List Value)) :
    Prog QueryError Database Unit := do
  match row with
  | .error e => Prog.stop e
  | .ok values =>
    rowSatisfiesSchemaConstraints parser command name schema values none
    match ← Database.insertRow name values with
    | none => Prog.stop (errorResult command "insert failed" name)
    | some _ => pure ()

def insertLoop (name : String) (schema : Schema) :
    List (Except QueryError (List Value)) → Prog QueryError Database Unit
  | [] => pure ()
  | row :: rows => do
    insertChecked parser command name schema row
    insertLoop name schema rows

/-- Run a statement on a table that has to exist. -/
def withSchema {α : Type} (name : String) (body : Schema → Prog QueryError Database α) :
    Prog QueryError Database α := do
  match ← Database.loadSchema name with
  | none => Prog.stop (errorResult command "unknown table" name)
  | some schema => body schema

def insertRowStatement (name : String) (insertColumns valuesRows : List String) :
    Prog QueryError Database QueryResult :=
  withSchema command name fun schema => do
    if valuesRows = [] then
      Prog.stop (errorResult command "empty VALUES list" name)
    else
      insertLoop parser command name schema
        (valuesRows.map (rowOfValues parser command schema insertColumns))
      pure { message := "row inserted", rowCount := valuesRows.length }

/-- What a `SELECT` returned: the number of its columns and the texts of its rows. -/
structure SelectResult where
  columnCount : Nat
  rows : List (List String)

/-- A selected value as it is written in a value list. -/
def sourceText (schema : Schema) (name value : String) : String :=
  match schema.findColumn name with
  | some column =>
    if column.type = .integer ∨ column.type = .number then value
    else if value = "NULL" then "NULL" else "'" ++ value ++ "'"
  | none => value

def rowOfSource (name : String) (schema : Schema) (targetColumns sourceRow : List String) :
    Except QueryError (List Value) := do
  let ordered ← orderValues command schema targetColumns
    (targetColumns.zipWith (sourceText schema) sourceRow)
  match parseRow parser schema (joinValueList ordered) (tokenPosition command name) with
  | .error e => .error (e.toQueryError command)
  | .ok row => pure row

/-- `INSERT ... SELECT`, with what the `SELECT` returned. -/
def insertSelect (name : String) (insertColumns : List String)
    (source : Except QueryError SelectResult) : Prog QueryError Database QueryResult :=
  withSchema command name fun schema => do
    match source with
    | .error e => Prog.stop e
    | .ok source =>
      let targetColumns :=
        if insertColumns = [] then schema.columns.map (·.name) else insertColumns
      if targetColumns.length ≠ source.columnCount then
        Prog.stop (errorResult command
          ("wrong selected column count: expected " ++ toString targetColumns.length ++ ", got " ++
            toString source.columnCount) name)
      else
        insertLoop parser command name schema
          (source.rows.map (rowOfSource parser command name schema targetColumns))
        pure { message := "row inserted", rowCount := source.rows.length }

/-- Run the loop of a `DELETE` or `UPDATE`, which counts the rows it changes. -/
def scanStatement (name done : String)
    (body : Nat → TableRow → Prog QueryError Database Nat) : Prog QueryError Database QueryResult := do
  let (completed, count) ← Database.scanRows
    (fun count row => do pure (true, ← withSource command (body count row))) name 0
  if completed then pure { message := done, rowCount := count }
  else Prog.stop (errorResult command "scan failed" name)

/-- Stop with the error of a pure computation. -/
def orStop {α : Type} : Except QueryError α → Prog QueryError Database α
  | .ok a => pure a
  | .error e => Prog.stop e

def deleteCallback (name : String) (schema : Schema) (condition : Option QueryCondition)
    (count : Nat) (row : TableRow) : Prog QueryError Database Nat := do
  if ← orStop (matchesWhere parser schema row condition) then
    if ← Database.deleteRow name row.recordId then pure (count + 1) else pure count
  else
    pure count

def deleteRowStatement (name : String) (condition : Option QueryCondition) :
    Prog QueryError Database QueryResult :=
  withSchema command name fun schema =>
    scanStatement command name "row deleted" (deleteCallback parser name schema condition)

/-- The callback of an `UPDATE`, which computes the new values of a row from the old ones. -/
def updateCallback (name : String) (schema : Schema) (condition : Option QueryCondition)
    (newValues : List Value → Except QueryError (List Value)) (count : Nat) (row : TableRow) :
    Prog QueryError Database Nat := do
  if ← orStop (matchesWhere parser schema row condition) then
    let values ← orStop (newValues row.values)
    rowSatisfiesSchemaConstraints parser command name schema values (some row.recordId)
    if ← Database.updateRow name row.recordId values then pure (count + 1) else pure count
  else
    pure count

def updateLoop (name : String) (schema : Schema) (condition : Option QueryCondition)
    (newValues : List Value → Except QueryError (List Value)) :
    Prog QueryError Database QueryResult :=
  scanStatement command name "row updated"
    (updateCallback parser command name schema condition newValues)

/-- `UPDATE` with the values of a whole row. -/
def updateRowStatement (name valuesText : String) (condition : Option QueryCondition) :
    Prog QueryError Database QueryResult :=
  withSchema command name fun schema => do
    match parseRow parser schema valuesText (tokenPosition command valuesText) with
    | .error e => Prog.stop (e.toQueryError command)
    | .ok values => updateLoop parser command name schema condition fun _ => .ok values

/-- The values of a row after the assignments of an `UPDATE`. -/
def assignValues (schema : Schema) :
    List (String × String) → List Value → Except QueryError (List Value)
  | [], values => .ok values
  | (name, text) :: assignments, values =>
    match schema.columnIndex name with
    | none => .error (errorResult command "unknown column" name)
    | some i =>
      match schema.findColumn name with
      | none => .error (errorResult command "unknown column" name)
      | some column =>
        match parser.parseValue column text (tokenPosition command text) with
        | .error e => .error (e.toQueryError command)
        | .ok value => assignValues schema assignments (values.set i value)

def updateAssignStatement (name : String) (assignments : List (String × String))
    (condition : Option QueryCondition) : Prog QueryError Database QueryResult :=
  withSchema command name fun schema => do
    if assignments = [] then
      Prog.stop (errorResult command "no assignments specified" "SET")
    else
      updateLoop parser command name schema condition (assignValues parser command schema assignments)

def createTableStatement (parts : SchemaParts) (ifNotExists : Bool) :
    Prog QueryError Database QueryResult := do
  let name := parts.tableName
  if ← Database.tableExists name then
    if ifNotExists then pure { message := "table already exists", rowCount := 0 }
    else Prog.stop (errorResult command "table already exists" name)
  else
    match Schema.make parts with
    | .error e => Prog.stop (errorResult command e name)
    | .ok schema =>
      if ← Database.createTable schema then pure { message := "table created", rowCount := 0 }
      else Prog.stop (errorResult command "could not create table" name)

def dropTableStatement (name : String) : Prog QueryError Database QueryResult := do
  if ¬ (← Database.tableExists name) then
    Prog.stop (errorResult command "unknown table" name)
  else if ← Database.dropTable name then
    pure { message := "table dropped", rowCount := 0 }
  else
    Prog.stop (errorResult command "could not drop table" name)

def createIndexStatement (name indexName columnName : String) (unique : Bool) :
    Prog QueryError Database QueryResult :=
  withSchema command name fun schema => do
    if (schema.columnIndex columnName).isNone then
      Prog.stop (errorResult command "unknown column" columnName)
    else if ← Database.createIndex name indexName columnName unique then
      pure { message := "index created", rowCount := 0 }
    else
      Prog.stop (errorResult command "could not create index" indexName)

def dropIndexStatement (name indexName : String) : Prog QueryError Database QueryResult :=
  withSchema command name fun _ => do
    if ← Database.dropIndex name indexName then pure { message := "index dropped", rowCount := 0 }
    else Prog.stop (errorResult command "unknown index" indexName)

/-- `ALTER TABLE ... DROP CONSTRAINT`. -/
def alterDropConstraint (name : String) (id : Nat) : Prog QueryError Database QueryResult :=
  withSchema command name fun _ => do
    if ← Database.dropConstraint name id then
      pure { message := "constraint dropped", rowCount := 0 }
    else
      Prog.stop (errorResult command "unknown constraint" (toString id))

/-- `ALTER TABLE ... ADD`: every row has to satisfy the schema with the new constraint. -/
def alterAddConstraint (name : String) (constraints : List ConstraintDefinition) :
    Prog QueryError Database QueryResult :=
  withSchema command name fun schema => do
    match constraints with
    | [c] =>
      let id := Database.nextId (schema.constraints.map (·.id))
      match Schema.make
          { schema.toSchemaParts with
            constraints := schema.constraints ++ [{ c with id }], indexes := [],
            storageMode := .disk } with
      | .error e => Prog.stop (errorResult command e name)
      | .ok candidate =>
        let (ok, _) ← Database.scanRows
          (fun _ row => do
            rowSatisfiesSchemaConstraints parser command name candidate row.values
              (some row.recordId)
            pure (true, ()))
          name ()
        if ¬ ok then Prog.stop (errorResult command "constraint violation" name)
        else if ← Database.addConstraint name c then
          pure { message := "constraint added", rowCount := 0 }
        else Prog.stop (errorResult command "could not add constraint" name)
    | _ => Prog.stop (errorResult command "expected constraint" name)

end Statements

/-- The modifying statements. -/
inductive Statement where
  | insert (name : String) (insertColumns valuesRows : List String)
  | insertSelect (name : String) (insertColumns : List String)
      (source : Except QueryError SelectResult)
  | update (name valuesText : String) (condition : Option QueryCondition)
  | updateAssign (name : String) (assignments : List (String × String))
      (condition : Option QueryCondition)
  | delete (name : String) (condition : Option QueryCondition)
  | createTable (parts : SchemaParts) (ifNotExists : Bool)
  | dropTable (name : String)
  | addConstraint (name : String) (constraints : List ConstraintDefinition)
  | dropConstraint (name : String) (id : Nat)
  | createIndex (name indexName columnName : String) (unique : Bool)
  | dropIndex (name indexName : String)

def Statement.run (parser : ValueParser) (command : String) :
    Statement → Prog QueryError Database QueryResult
  | .insert name columns rows => insertRowStatement parser command name columns rows
  | .insertSelect name columns source => ScratchDb.insertSelect parser command name columns source
  | .update name values condition => updateRowStatement parser command name values condition
  | .updateAssign name assignments condition =>
    updateAssignStatement parser command name assignments condition
  | .delete name condition => deleteRowStatement parser command name condition
  | .createTable parts ifNotExists => createTableStatement command parts ifNotExists
  | .dropTable name => dropTableStatement command name
  | .addConstraint name constraints => alterAddConstraint parser command name constraints
  | .dropConstraint name id => alterDropConstraint command name id
  | .createIndex name index column unique => createIndexStatement command name index column unique
  | .dropIndex name index => dropIndexStatement command name index

end ScratchDb
