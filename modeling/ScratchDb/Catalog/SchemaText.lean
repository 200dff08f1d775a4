import ScratchDb.Lib.DelimitedText
import ScratchDb.Query.Schema

/-!
# The text of a schema

Model of `serialize_schema` and `read_schema_file` of `src/catalog/catalog.cpp`,
of the texts of constraints and indexes in `src/catalog/schema.cpp`, and of the
constraints that the SQL parser makes. A text is the list of its characters.
-/

namespace ScratchDb

open DelimitedText

/-! ## Writing -/

namespace Column

def typeToString : ColumnType → String
  | .nullType => "null"
  | .integer => "integer"
  | .number => "number"
  | .character => "char"
  | .string => "string"
  | .varstring => "varstring"
  | .date => "date"
  | .time => "time"
  | .datetime => "datetime"
  | .text => "text"

def typeFromString (text : String) : Option ColumnType :=
  if text = "null" then some .nullType
  else if text = "integer" then some .integer
  else if text = "number" then some .number
  else if text = "char" then some .character
  else if text = "string" then some .string
  else if text = "varstring" then some .varstring
  else if text = "date" then some .date
  else if text = "time" then some .time
  else if text = "datetime" then some .datetime
  else if text = "text" then some .text
  else none

theorem typeFromString_typeToString (t : ColumnType) :
    typeFromString (typeToString t) = some t := by
  cases t <;> decide

end Column

/-- `std::to_string`. -/
def decimal (n : Nat) : List Char := Nat.toDigits 10 n

def commaSeparated (names : List String) : List Char := [','].intercalate (names.map String.toList)

def ConstraintDefinition.serialized (c : ConstraintDefinition) : List Char :=
  decimal c.id ++ '|' :: c.kind.text.toList ++
    (if c.columns = [] then [] else '|' :: commaSeparated c.columns) ++
    (if c.args = [] then [] else '|' :: commaSeparated c.args)

def IndexDefinition.serialized (i : IndexDefinition) : List Char :=
  decimal i.id ++ '|' :: (i.name.toList ++ '|' :: ((if i.unique then ['1'] else ['0']) ++
    '|' :: commaSeparated i.columns))

def TableStorageMode.text : TableStorageMode → String
  | .disk => "DISK"
  | .memory => "MEMORY"

/-- The words of a line, with a blank between them. -/
def lineOf (words : List (List Char)) : List Char := [' '].intercalate words

def Column.line (c : Column) : List Char :=
  lineOf ["column".toList, c.name.toList, (Column.typeToString c.type).toList,
    if c.nullable then ['1'] else ['0'], decimal c.maxSize, decimal c.precision, decimal c.scale]

def schemaLines (s : SchemaParts) : List (List Char) :=
  lineOf ["table".toList, s.tableName.toList] ::
    lineOf ["storage".toList, s.storageMode.text.toList] ::
    (s.columns.map Column.line ++
      s.constraints.map (fun c => lineOf ["constraint".toList, c.serialized]) ++
      s.indexes.map (fun i => lineOf ["index".toList, i.serialized]))

def serializeSchema (s : SchemaParts) : List Char := (schemaLines s).flatMap (· ++ ['\n'])

/-! ## Reading -/

/-- `std::nullopt`, or an exception of `std::stoull`. -/
inductive ReadFailure where
  | nullopt
  | exception
deriving DecidableEq

/-- `std::isspace` of the C locale. -/
def isSpace (c : Char) : Bool :=
  c = ' ' || c = '\t' || c = '\n' || c = '\r' || c = Char.ofNat 11 || c = Char.ofNat 12

/-- `>>` into a string. -/
def readWord (cs : List Char) : Option (List Char × List Char) := takeWord isSpace cs

/-- Blanks, a sign and digits: whether the number is negative, its size, and what follows. -/
def scanNumber (cs : List Char) : Option (Bool × Nat × List Char) :=
  match cs.dropWhile isSpace with
  | '-' :: rest => (takeNumber rest).map fun (n, rest) => (true, n, rest)
  | '+' :: rest => (takeNumber rest).map fun (n, rest) => (false, n, rest)
  | rest => (takeNumber rest).map fun (n, rest) => (false, n, rest)

/-- `>>` into an `int`. -/
def readInt (cs : List Char) : Option (Int × List Char) :=
  match scanNumber cs with
  | none => none
  | some (negative, n, rest) =>
    if negative then if n ≤ 2 ^ 31 then some (-(n : Int), rest) else none
    else if n < 2 ^ 31 then some ((n : Int), rest) else none

/-- `>>` into a `uint16_t`; a negative number wraps around. -/
def readUInt16 (cs : List Char) : Option (Nat × List Char) :=
  match scanNumber cs with
  | none => none
  | some (negative, n, rest) =>
    if n < 2 ^ 16 then some (if negative then (2 ^ 16 - n) % 2 ^ 16 else n, rest) else none

/-- `std::stoull`. -/
def stoull (cs : List Char) : Except ReadFailure Nat :=
  match scanNumber cs with
  | none => .error .exception
  | some (negative, n, _) =>
    if n < 2 ^ 64 then .ok (if negative then (2 ^ 64 - n) % 2 ^ 64 else n) else .error .exception

/-- The loop of `split_csv`, with the current part, last character first. -/
def splitCsvLoop : List Char → List Char → List (List Char)
  | [], current => if current = [] then [] else [current.reverse]
  | c :: cs, current =>
    if c = ',' then
      if current = [] then splitCsvLoop cs [] else current.reverse :: splitCsvLoop cs []
    else splitCsvLoop cs (c :: current)

def splitCsv (text : List Char) : List String := (splitCsvLoop text []).map String.ofList

/-- A `ConstraintDefinition` of any kind. -/
structure RawConstraint where
  id : Nat := 0
  kind : String := ""
  columns : List String := []
  args : List String := []
deriving DecidableEq

/-- What follows the id of a constraint. -/
def RawConstraint.afterId (id : Nat) (rest : List Char) : RawConstraint :=
  match cutAt '|' rest with
  | none => { id, kind := String.ofList rest }
  | some (kindText, remaining) =>
    let kind := String.ofList kindText
    match cutAt '|' remaining with
    | none =>
      if kind = "check" then { id, kind, args := splitCsv remaining }
      else { id, kind, columns := splitCsv remaining }
    | some (columnsText, argsText) =>
      if kind = "check" ∧ splitCsv columnsText = [] then { id, kind, args := splitCsv remaining }
      else { id, kind, columns := splitCsv columnsText, args := splitCsv argsText }

def RawConstraint.fromSerialized (text : List Char) : Except ReadFailure RawConstraint :=
  match cutAt '|' text with
  | none => .ok {}
  | some (idText, rest) =>
    if idText = [] then .ok (afterId 0 rest) else (stoull idText).map (afterId · rest)

def IndexDefinition.fromSerialized (text : List Char) : Except ReadFailure IndexDefinition :=
  let none : IndexDefinition := { id := 0, name := "", columns := [], unique := false }
  match cutAt '|' text with
  | .none => .ok none
  | some (idText, rest) =>
    match cutAt '|' rest with
    | .none => .ok none
    | some (name, rest) =>
      match cutAt '|' rest with
      | .none => .ok none
      | some (unique, columns) => do
        let id ← stoull idText
        .ok { id, name := String.ofList name, columns := splitCsv columns,
              unique := unique = ['1'] }

/-- The constructor of `Column`, `none` where it throws. -/
def Column.make (name : String) (type : ColumnType) (nullable : Bool)
    (maxSize precision scale : Nat) : Option Column :=
  if type = .nullType ∨ isValidName name = false then none
  else
    let sizeOk := match type with
      | .string => maxSize ≠ 0 && maxSize ≤ 1024
      | .varstring => maxSize ≠ 0 && maxSize ≤ 1024
      | .text => maxSize = 2048
      | t => maxSize ≠ 0 && maxSize = fixedSize t
    let formatOk :=
      if type = .number then 0 < precision && precision ≤ 18 && scale ≤ precision
      else precision = 0 && scale = 0
    if sizeOk && formatOk then some { name, type, nullable, maxSize, precision, scale } else none

/-- `from_catalog` looks at the precision and scale of NUMBER columns only. -/
def Column.fromCatalog (name : String) (type : ColumnType) (nullable : Bool)
    (maxSize precision scale : Nat) : Option Column :=
  match type with
  | .nullType => none
  | .number => if maxSize = fixedSize .number then make name .number nullable maxSize precision scale
    else none
  | .string => make name .string nullable maxSize 0 0
  | .varstring => make name .varstring nullable maxSize 0 0
  | .text => if maxSize = 2048 then make name .text nullable maxSize 0 0 else none
  | t => if maxSize = fixedSize t then make name t nullable maxSize 0 0 else none

/-- The numbers after the size of a column; both may be missing. -/
def readNumberFormat (cs : List Char) : Option (Int × Int) :=
  match readInt cs with
  | none => some (0, 0)
  | some (precision, rest) => (readInt rest).map fun (scale, _) => (precision, scale)

/-- What follows `column`. -/
def readColumn (cs : List Char) : Option Column := do
  let (name, cs) ← readWord cs
  let (typeText, cs) ← readWord cs
  let (nullable, cs) ← readInt cs
  let (maxSize, cs) ← readUInt16 cs
  let (precision, scale) ← readNumberFormat cs
  let type ← Column.typeFromString (String.ofList typeText)
  Column.fromCatalog (String.ofList name) type (nullable ≠ 0) maxSize (precision % 256).toNat
    (scale % 256).toNat

/-- What the loop over the lines has collected. -/
structure SchemaLines where
  columns : List Column := []
  constraints : List RawConstraint := []
  indexes : List IndexDefinition := []
  storageMode : TableStorageMode := .disk

def readLine (read : SchemaLines) (line : List Char) : Except ReadFailure SchemaLines :=
  if line = [] then .ok read
  else
    match readWord line with
    | none => .error .nullopt
    | some (word, rest) =>
      if word = "storage".toList then
        match readWord rest with
        | none => .error .nullopt
        | some (text, _) =>
          if text = "MEMORY".toList then .ok { read with storageMode := .memory }
          else if text = "DISK".toList then .ok { read with storageMode := .disk }
          else .error .nullopt
      else if word = "column".toList then
        match readColumn rest with
        | none => .error .nullopt
        | some column => .ok { read with columns := read.columns ++ [column] }
      else if word = "constraint".toList then
        match readWord rest with
        | none => .error .nullopt
        | some (text, _) => do
          let c ← RawConstraint.fromSerialized text
          .ok { read with constraints := read.constraints ++ [c] }
      else if word = "index".toList then
        match readWord rest with
        | none => .error .nullopt
        | some (text, _) => do
          let i ← IndexDefinition.fromSerialized text
          .ok { read with indexes := read.indexes ++ [i] }
      else .error .nullopt

def readLines : SchemaLines → List (List Char) → Except ReadFailure SchemaLines
  | read, [] => .ok read
  | read, line :: lines => do readLines (← readLine read line) lines

/-- `is_valid_constraint_name`. -/
def ConstraintKind.ofText (text : String) : Option ConstraintKind :=
  if text = "primary_key" then some .primaryKey
  else if text = "unique" then some .unique
  else if text = "foreign_key" then some .foreignKey
  else if text = "check" then some .check
  else none

def RawConstraint.toDefinition (c : RawConstraint) : Option ConstraintDefinition :=
  (ConstraintKind.ofText c.kind).map fun kind =>
    { id := c.id, kind, columns := c.columns, args := c.args }

/-- The constructor of `Schema`, whose exception is caught. -/
def SchemaLines.toSchema (read : SchemaLines) (name : List Char) : Except ReadFailure Schema :=
  match read.constraints.mapM RawConstraint.toDefinition with
  | none => .error .nullopt
  | some constraints =>
    match Schema.make
        { tableName := String.ofList name, columns := read.columns, constraints,
          indexes := read.indexes, storageMode := read.storageMode } with
    | .error _ => .error .nullopt
    | .ok schema => .ok schema

/-- The first line names the table. -/
def readTableLine (line : List Char) : Option (List Char) := do
  let (word, rest) ← readWord line
  let (name, _) ← readWord rest
  if word = "table".toList then some name else none

def readSchemaFile (text : List Char) : Except ReadFailure Schema :=
  match linesOf '\n' text with
  | [] => .error .nullopt
  | line :: lines =>
    match readTableLine line with
    | none => .error .nullopt
    | some name => do
      let read ← readLines {} lines
      read.toSchema name

/-! ## What the SQL parser makes -/

inductive TokenType where
  | word
  | number
  | string
  | leftParen
  | rightParen
  | comma
  | dot
  | star
  | op
deriving DecidableEq

structure Token where
  type : TokenType
  text : String
  nonempty : text ≠ ""

/-- The operands that `CHECK (` collects up to the closing parenthesis. -/
def checkParts : List Token → List String
  | [] => []
  | t :: ts =>
    if t.type = .rightParen then []
    else if t.type = .word ∨ t.type = .number ∨ t.type = .string ∨ t.type = .op ∨ t.type = .star then
      t.text :: checkParts ts
    else checkParts ts

/-- A constraint that `parse_table_constraint` returns; `is_identifier` is `isValidName`. -/
inductive ParsedConstraint : ConstraintDefinition → Prop
  | primaryKey (id : Nat) (columns : List String)
      (h : ∀ name ∈ columns, Column.isValidName name = true) :
      ParsedConstraint { id, kind := .primaryKey, columns, args := [] }
  | unique (id : Nat) (columns : List String)
      (h : ∀ name ∈ columns, Column.isValidName name = true) :
      ParsedConstraint { id, kind := .unique, columns, args := [] }
  | foreignKey (id : Nat) (column refTable refColumn : String)
      (h : ∀ name ∈ [column, refTable, refColumn], Column.isValidName name = true) :
      ParsedConstraint { id, kind := .foreignKey, columns := [column], args := [refTable, refColumn] }
  | check (id : Nat) (tokens : List Token) :
      ParsedConstraint { id, kind := .check, columns := [], args := checkParts tokens }

/-- A schema of the parser: its ids fit their type, and its columns come from the constructor of
`Column`, which leaves the number format of other types at zero. -/
structure OfParser (s : SchemaParts) : Prop where
  constraints : ∀ c ∈ s.constraints, ParsedConstraint c
  constraintIds : ∀ c ∈ s.constraints, c.id < 2 ^ 64
  indexIds : ∀ i ∈ s.indexes, i.id < 2 ^ 64
  numberFormat : ∀ c ∈ s.columns, c.type ≠ .number → c.precision = 0 ∧ c.scale = 0

end ScratchDb
