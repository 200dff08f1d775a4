import Mathlib.Data.List.DropRight
import ScratchDb.Select.Results
import ScratchDb.Values.DateTime

/-!
# Values as texts

Model of `src/query/value_parser.cpp`: literals of each type of column, with
the messages of their errors, lists of literals, and the texts of values in
results. A text is a list of characters that stand for its bytes.
-/

namespace ScratchDb

def bytesOf (text : List Char) : Bytes := text.map fun c => UInt8.ofNat c.toNat

def textOf (bytes : Bytes) : List Char := bytes.map fun b => Char.ofNat b.toNat

namespace ValueParser

open PaddedDecimal

/-! ## Helpers -/

def trim (text : List Char) : List Char := (text.dropWhile isSpace).rdropWhile isSpace

/-- `local_start`. -/
def blanksBefore (text : List Char) : Nat := (text.takeWhile isSpace).length

/-- A part of a list of literals and its position. -/
def textPart (current : List Char) (position : Nat) : String × Nat :=
  (String.ofList (trim current), position + blanksBefore current)

/--
The loop of `split_csv_with_positions` at character `i`: the current part with
its position, whether it is inside a string, and the depth of the parentheses.
-/
def splitCsvFrom (basePosition : Nat) :
    List Char → Nat → List Char → Nat → Bool → Nat → List (String × Nat)
  | [], _, current, position, _, _ => [textPart current position]
  | ch :: rest, i, current, position, inString, parenDepth =>
    if ch = '\'' then
      splitCsvFrom basePosition rest (i + 1) (current ++ [ch]) position (!inString) parenDepth
    else if ch = '(' ∧ ¬ inString then
      splitCsvFrom basePosition rest (i + 1) (current ++ [ch]) position inString
        ((parenDepth + 1) % 2 ^ 16)
    else if ch = ')' ∧ ¬ inString ∧ parenDepth > 0 then
      splitCsvFrom basePosition rest (i + 1) (current ++ [ch]) position inString (parenDepth - 1)
    else if ch = ',' ∧ ¬ inString ∧ parenDepth = 0 then
      textPart current position ::
        splitCsvFrom basePosition rest (i + 1) [] (basePosition + i + 1) inString parenDepth
    else
      splitCsvFrom basePosition rest (i + 1) (current ++ [ch]) position inString parenDepth

def splitCsvWithPositions (text : String) (basePosition : Nat) : List (String × Nat) :=
  if text.toList = [] then []
  else splitCsvFrom basePosition text.toList 0 [] basePosition false 0

/-- `std::stoll` and the characters that it leaves; `none` where it throws. -/
def stoll (text : List Char) : Option (Int × List Char) :=
  match scanNumber text with
  | none => none
  | some (negative, n, rest) =>
    if negative then if n ≤ 2 ^ 63 then some (-(n : Int), rest) else none
    else if n < 2 ^ 63 then some ((n : Int), rest) else none

def parseInteger (text : List Char) : Option Int :=
  match stoll text with
  | some (value, []) => some value
  | _ => none

/-- The digits before and behind the decimal point. -/
def splitNumber : List Char → Bool → List Char → List Char → Option (List Char × List Char)
  | [], _, whole, fraction => some (whole, fraction)
  | ch :: rest, afterDecimal, whole, fraction =>
    if ch = '.' then if afterDecimal then none else splitNumber rest true whole fraction
    else if ch.isDigit = false then none
    else if afterDecimal then splitNumber rest true whole (fraction ++ [ch])
    else splitNumber rest false (whole ++ [ch]) fraction

/-- Without the zeros in front, as long as a digit is left. -/
def stripZeros : List Char → List Char
  | '0' :: ch :: rest => stripZeros (ch :: rest)
  | digits => digits

/-- The checks of `parse_number` behind its loop, and the scaled number. -/
def scaledNumber (whole fraction : List Char) (precision scale : Nat) : Option Nat :=
  let whole := if stripZeros whole = [] then ['0'] else stripZeros whole
  let wholeDigits := if whole = ['0'] then 0 else whole.length
  if fraction.length > scale then none
  else if wholeDigits + fraction.length > precision ∨ wholeDigits > precision - scale then none
  else
    some (Nat.ofDigitChars 10
      (whole ++ (fraction ++ List.replicate (scale - fraction.length) '0')) 0)

def parseNumber (text : List Char) (precision scale : Nat) : Option Int :=
  let negative : Bool := text.head? = some '-'
  let digits := if negative then text.tail else text
  if digits = [] then none
  else do
    let parts ← splitNumber digits false [] []
    let scaled ← scaledNumber parts.1 parts.2 precision scale
    some (if negative then -(scaled : Int) else scaled)

def formatNumber (scaledValue : Int) (scale : Nat) : List Char :=
  let whole := if scale = 0 then scaledValue.natAbs else scaledValue.natAbs / 10 ^ scale
  let fraction := if scale = 0 then 0 else scaledValue.natAbs % 10 ^ scale
  (if scaledValue < 0 then ['-'] else []) ++
    (decimal whole ++ if scale > 0 then '.' :: padded scale fraction else [])

/-! ## Literals -/

/-- What follows the check of the quotes. -/
def parseQuoted (column : Column) (value : List Char) : Except String Value :=
  match column.type with
  | .character =>
    if value.length ≠ 1 then
      .error ("CHAR value for column " ++ column.name ++ " must be exactly one character")
    else .ok (.character (bytesOf value))
  | .string =>
    if (Value.string (bytesOf value)).matchesColumn column then .ok (.string (bytesOf value))
    else .error ("STRING value for column " ++ column.name ++ " exceeds max size " ++
      String.ofList (decimal column.maxSize))
  | .varstring =>
    if (Value.varstring (bytesOf value)).matchesColumn column then .ok (.varstring (bytesOf value))
    else .error ("VARSTRING value for column " ++ column.name ++ " exceeds max size " ++
      String.ofList (decimal column.maxSize))
  | .date =>
    match Date.fromString value with
    | some date => .ok (.date date)
    | none => .error ("invalid DATE value for column " ++ column.name)
  | .time =>
    match Time.fromString value with
    | some time => .ok (.time time)
    | none => .error ("invalid TIME value for column " ++ column.name)
  | .datetime =>
    match DateTime.fromString value with
    | some datetime => .ok (.datetime datetime)
    | none => .error ("invalid DATETIME value for column " ++ column.name)
  | _ =>
    if (Value.text (bytesOf value)).matchesColumn column then .ok (.text (bytesOf value))
    else .error ("TEXT value for column " ++ column.name ++ " exceeds max size " ++
      String.ofList (decimal column.maxSize))

/-- The types whose literals stand between quotes. -/
def isQuotedType (type : ColumnType) : Bool :=
  type = .character || type = .string || type = .varstring || type = .date || type = .time ||
    type = .datetime || type = .text

/-- The value of a literal without blanks around it, or the message of the error. -/
def parseCleaned (column : Column) (cleaned : List Char) : Except String Value :=
  if cleaned = "NULL".toList then
    if column.nullable then .ok .null
    else .error ("NULL is not allowed for column " ++ column.name)
  else if column.type = .integer then
    match parseInteger cleaned with
    | some value => .ok (.integer value)
    | none => .error ("invalid INTEGER value for column " ++ column.name)
  else if column.type = .number then
    match parseNumber cleaned column.precision column.scale with
    | some value => .ok (.number value)
    | none => .error ("invalid NUMBER value for column " ++ column.name)
  else if isQuotedType column.type then
    if cleaned.length < 2 ∨ cleaned.head? ≠ some '\'' ∨ cleaned.getLast? ≠ some '\'' then
      .error (Column.typeToString column.type ++ " value for column " ++ column.name ++
        " must be quoted")
    else parseQuoted column ((cleaned.drop 1).take (cleaned.length - 2))
  else .error ("unsupported value type for column " ++ column.name)

/-- `ValueParser::parse_value_with_error`. -/
def parseValueWithError (column : Column) (text : String) (basePosition : Nat) :
    Except ValueParseError Value :=
  match parseCleaned column (trim text.toList) with
  | .ok value => .ok value
  | .error message =>
    .error { message, token := String.ofList (trim text.toList),
             position := basePosition + blanksBefore text.toList }

/-- `ValueParser::format_value`. -/
def formatValue (column : Column) (value : Value) : String :=
  String.ofList <|
    match value with
    | .null => "NULL".toList
    | .integer n => signedDecimal n
    | .number n => formatNumber n column.scale
    | .date n => Date.toString n
    | .time n => Time.toString n
    | .datetime n => DateTime.toString n
    | value => textOf value.stringData

end ValueParser

namespace Select

/-- The parser and the formatter of the source; the arithmetic of `long double` is left open. -/
def sourceTexts (numbers : LongDouble) : ValueTexts where
  parseValue := ValueParser.parseValueWithError
  splitCsv := ValueParser.splitCsvWithPositions
  formatValue := ValueParser.formatValue
  numbers := numbers

end Select

end ScratchDb
