import Mathlib.Data.List.DropRight
import ScratchDb.Lib.SignedBytes
import ScratchDb.Query.Schema

/-!
# Rows as bytes

Model of `src/record/serializer.cpp`: a bitmap of the NULLs, an area with a
fixed place for each column, and behind it the bytes of VARSTRING and TEXT
values, to which the fixed area points with 16-bit offsets. Positions that the
code would write outside the array do not occur where the sizes fit 16 bits.
-/

namespace ScratchDb

/-- `Row`: values in the order of the columns. -/
abbrev Row := List Value

namespace RecordSerializer

open LittleEndian

/-! ## Bytes of a record -/

def isVariableType (type : ColumnType) : Bool := type = .varstring || type = .text

/-- `VAR_POINTER_SIZE`. -/
def varPointerSize : Nat := 4

def storageSize (column : Column) : Nat :=
  if isVariableType column.type then varPointerSize
  else if column.type = .string then column.maxSize
  else Column.fixedSize column.type

/-- The cast to `uint16_t`. -/
def toUint16 (n : Nat) : Nat := n % 2 ^ 16

def nullBitmapSize (columnCount : Nat) : Nat := toUint16 ((columnCount + 7) / 8)

/-- Bytes written over those from `pos` on. -/
def writeAt (out : Bytes) (pos : Nat) (bytes : Bytes) : Bytes :=
  out.take pos ++ bytes ++ out.drop (pos + bytes.length)

/-- `size` bytes from `pos` on, if there are as many. -/
def readAt (record : Bytes) (pos size : Nat) : Option Bytes :=
  if pos + size > record.length then none else some ((record.drop pos).take size)

/-- The bit of a column in its byte. -/
def nullMask (columnIndex : Nat) : UInt8 := 1 <<< UInt8.ofNat (columnIndex % 8)

def nullBitIsSet (record : Bytes) (columnIndex : Nat) : Bool :=
  record.getD (columnIndex / 8) 0 &&& nullMask columnIndex ≠ 0

def setNullBit (record : Bytes) (columnIndex : Nat) : Bytes :=
  record.set (columnIndex / 8) (record.getD (columnIndex / 8) 0 ||| nullMask columnIndex)

/-- `read_padded_string`: without the zeros at the end. -/
def readPaddedString (record : Bytes) (pos size : Nat) : Bytes :=
  ((record.drop pos).take size).rdropWhile (· = 0)

/-- The sum of the storage sizes, in a `uint16_t`. -/
def fixedAreaSize (columns : List Column) : Nat :=
  columns.foldl (fun size column => toUint16 (size + storageSize column)) 0

/-! ## `serialize` -/

/-- The branches for a value that is not NULL. -/
def writeValue (out : Bytes) (columnPos : Nat) (column : Column) (value : Value) : Option Bytes :=
  match column.type with
  | .integer => some (writeAt out columnPos (encodeInt 8 value.integerData))
  | .number => some (writeAt out columnPos (encodeInt 8 value.numberData))
  | .character => some (writeAt out columnPos [value.stringData.headD 0])
  | .string => some (writeAt out columnPos value.stringData)
  | .date => some (writeAt out columnPos (encodeInt 4 value.dateData))
  | .time => some (writeAt out columnPos (encode 4 value.timeData))
  | .datetime => some (writeAt out columnPos (encodeInt 8 value.datetimeData))
  | .varstring | .text =>
    let text := value.stringData
    let offset := toUint16 out.length
    let out := writeAt out columnPos (encode 2 (toUint16 text.length))
    some (writeAt out (columnPos + 2) (encode 2 offset) ++ text)
  | .nullType => none

/-- The loop of `serialize`, from column `i` on. -/
def serializeColumns : List Column → Row → Nat → Nat → Bytes → Option Bytes
  | [], _, _, _, out => some out
  | _ :: _, [], _, _, _ => none
  | column :: columns, value :: row, i, fixedPos, out =>
    if value.matchesColumn column = false then none
    else if value.isNull then
      serializeColumns columns row (i + 1) (fixedPos + storageSize column) (setNullBit out i)
    else
      (writeValue out fixedPos column value).bind
        (serializeColumns columns row (i + 1) (fixedPos + storageSize column))

/-- `RecordSerializer::serialize`; `none` when it returns false. -/
def serialize (schema : Schema) (row : Row) : Option Bytes :=
  if toUint16 row.length ≠ schema.columns.length then none
  else
    let bitmapSize := nullBitmapSize schema.columns.length
    serializeColumns schema.columns row 0 bitmapSize
      (List.replicate (bitmapSize + fixedAreaSize schema.columns) 0)

/-! ## `deserialize` -/

/-- The branches for a column whose null bit is not set. -/
def readValue (record : Bytes) (columnPos : Nat) (column : Column) : Option Value :=
  match column.type with
  | .integer => (readAt record columnPos 8).map fun bytes => .integer (decodeInt bytes)
  | .number => (readAt record columnPos 8).map fun bytes => .number (decodeInt bytes)
  | .character => some (.character [record.getD columnPos 0])
  | .string => some (.string (readPaddedString record columnPos column.maxSize))
  | .date => (readAt record columnPos 4).map fun bytes => .date (decodeInt bytes)
  | .time => do
    let seconds := decode (← readAt record columnPos 4)
    if seconds ≥ 86400 then none else some (.time seconds)
  | .datetime => (readAt record columnPos 8).map fun bytes => .datetime (decodeInt bytes)
  | .varstring | .text => do
    let size := decode (← readAt record columnPos 2)
    let offset := decode (← readAt record (columnPos + 2) 2)
    if size > column.maxSize ∨ offset + size > record.length then none
    else
      let text := (record.drop offset).take size
      some (if column.type = .text then .text text else .varstring text)
  | .nullType => none

/-- The value of column `i`. -/
def readColumn (record : Bytes) (i columnPos : Nat) (column : Column) : Option Value :=
  if nullBitIsSet record i then if column.nullable then some .null else none
  else readValue record columnPos column

/-- The loop of `deserialize`, from column `i` on. -/
def deserializeColumns (record : Bytes) : List Column → Nat → Nat → Option Row
  | [], _, _ => some []
  | column :: columns, i, fixedPos => do
    let value ← readColumn record i fixedPos column
    let row ← deserializeColumns record columns (i + 1) (fixedPos + storageSize column)
    some (value :: row)

/-- `RecordSerializer::deserialize`; `none` when it returns false. -/
def deserialize (schema : Schema) (record : Bytes) : Option Row :=
  let bitmapSize := nullBitmapSize schema.columns.length
  if record.length < bitmapSize then none
  else if record.length < bitmapSize + fixedAreaSize schema.columns then none
  else deserializeColumns record schema.columns 0 bitmapSize

end RecordSerializer

end ScratchDb
