import ScratchDb.Lib.Accesses
import ScratchDb.Record.RowRoundTrip

/-!
# The sizes and bytes of a record

The functions of `src/record/serializer.cpp` again, with every access to a byte
array and every cast to `uint16_t` noted. The validator of schemas bounds the
number of columns and the size of each, not their sum: a fixed area and a text
may begin too far behind for 16 bits.
-/

namespace ScratchDb

open Accesses Logged LittleEndian RecordSerializer

namespace RecordAccess

/-! ## Bytes -/

def writeAt (out : Bytes) (pos : Nat) (bytes : Bytes) : Logged Bytes :=
  .touch pos bytes.length out.length (RecordSerializer.writeAt out pos bytes)

def setNullBit (out : Bytes) (columnIndex : Nat) : Logged Bytes :=
  .touch (columnIndex / 8) 1 out.length (RecordSerializer.setNullBit out columnIndex)

/-- The reader checks the size first. -/
def readAt (record : Bytes) (pos size : Nat) : Logged (Option Bytes) :=
  if pos + size > record.length then pure none
  else .touch pos size record.length (some ((record.drop pos).take size))

def nullBitIsSet (record : Bytes) (columnIndex : Nat) : Logged Bool :=
  .touch (columnIndex / 8) 1 record.length (RecordSerializer.nullBitIsSet record columnIndex)

def readPaddedString (record : Bytes) (pos size : Nat) : Logged Bytes :=
  .touch pos size record.length (RecordSerializer.readPaddedString record pos size)

/-! ## Sizes -/

def nullBitmapSize (columnCount : Nat) : Logged Nat := .narrow ((columnCount + 7) / 8) (2 ^ 16)

/-- The loop over the columns, from a size on. -/
def fixedAreaSize : List Column → Nat → Logged Nat
  | [], size => pure size
  | column :: columns, size => do
    let size ← Logged.narrow (size + storageSize column) (2 ^ 16)
    fixedAreaSize columns size

/-! ## `serialize` -/

def writeValue (out : Bytes) (columnPos : Nat) (column : Column) (value : Value) :
    Logged (Option Bytes) :=
  match column.type with
  | .integer => do
    let out ← writeAt out columnPos (encodeInt 8 value.integerData)
    pure (some out)
  | .number => do
    let out ← writeAt out columnPos (encodeInt 8 value.numberData)
    pure (some out)
  | .character => do
    let out ← writeAt out columnPos [value.stringData.headD 0]
    pure (some out)
  | .string => do
    let out ← writeAt out columnPos value.stringData
    pure (some out)
  | .date => do
    let out ← writeAt out columnPos (encodeInt 4 value.dateData)
    pure (some out)
  | .time => do
    let out ← writeAt out columnPos (encode 4 value.timeData)
    pure (some out)
  | .datetime => do
    let out ← writeAt out columnPos (encodeInt 8 value.datetimeData)
    pure (some out)
  | .varstring | .text => do
    let text := value.stringData
    let offset ← Logged.narrow out.length (2 ^ 16)
    let size ← Logged.narrow text.length (2 ^ 16)
    let out ← writeAt out columnPos (encode 2 size)
    let out ← writeAt out (columnPos + 2) (encode 2 offset)
    pure (some (out ++ text))
  | .nullType => pure none

def serializeColumns : List Column → Row → Nat → Nat → Bytes → Logged (Option Bytes)
  | [], _, _, _, out => pure (some out)
  | _ :: _, [], _, _, _ => pure none
  | column :: columns, value :: row, i, fixedPos, out =>
    if value.matchesColumn column = false then pure none
    else if value.isNull then do
      let out ← setNullBit out i
      serializeColumns columns row (i + 1) (fixedPos + storageSize column) out
    else do
      let written ← writeValue out fixedPos column value
      written.elim (pure none) fun out =>
        serializeColumns columns row (i + 1) (fixedPos + storageSize column) out

def serialize (schema : Schema) (row : Row) : Logged (Option Bytes) := do
  let valueCount ← Logged.narrow row.length (2 ^ 16)
  if valueCount ≠ schema.columns.length then pure none
  else
    let size ← fixedAreaSize schema.columns 0
    let bitmapSize ← nullBitmapSize schema.columns.length
    serializeColumns schema.columns row 0 bitmapSize (List.replicate (bitmapSize + size) 0)

/-! ## `deserialize` -/

def readValue (record : Bytes) (columnPos : Nat) (column : Column) : Logged (Option Value) :=
  match column.type with
  | .integer => do
    let bytes ← readAt record columnPos 8
    pure (bytes.map fun bytes => .integer (decodeInt bytes))
  | .number => do
    let bytes ← readAt record columnPos 8
    pure (bytes.map fun bytes => .number (decodeInt bytes))
  | .character => .touch columnPos 1 record.length (some (.character [record.getD columnPos 0]))
  | .string => do
    let text ← readPaddedString record columnPos column.maxSize
    pure (some (.string text))
  | .date => do
    let bytes ← readAt record columnPos 4
    pure (bytes.map fun bytes => .date (decodeInt bytes))
  | .time => do
    let bytes ← readAt record columnPos 4
    pure (bytes.bind fun bytes =>
      if decode bytes ≥ 86400 then none else some (.time (decode bytes)))
  | .datetime => do
    let bytes ← readAt record columnPos 8
    pure (bytes.map fun bytes => .datetime (decodeInt bytes))
  | .varstring | .text => do
    let size ← readAt record columnPos 2
    size.elim (pure none) fun size => do
      let offset ← readAt record (columnPos + 2) 2
      offset.elim (pure none) fun offset =>
        if decode size > column.maxSize ∨ decode offset + decode size > record.length then
          pure none
        else do
          let text ← Logged.touch (decode offset) (decode size) record.length
            ((record.drop (decode offset)).take (decode size))
          pure (some (if column.type = .text then .text text else .varstring text))
  | .nullType => pure none

def readColumn (record : Bytes) (i columnPos : Nat) (column : Column) :
    Logged (Option Value) := do
  let null ← nullBitIsSet record i
  if null then pure (if column.nullable then some .null else none)
  else readValue record columnPos column

def deserializeColumns (record : Bytes) : List Column → Nat → Nat → Logged (Option Row)
  | [], _, _ => pure (some [])
  | column :: columns, i, fixedPos => do
    let value ← readColumn record i fixedPos column
    value.elim (pure none) fun value => do
      let row ← deserializeColumns record columns (i + 1) (fixedPos + storageSize column)
      pure (row.map (value :: ·))

def deserialize (schema : Schema) (record : Bytes) : Logged (Option Row) := do
  let bitmapSize ← nullBitmapSize schema.columns.length
  if record.length < bitmapSize then pure none
  else
    let size ← fixedAreaSize schema.columns 0
    if record.length < bitmapSize + size then pure none
    else deserializeColumns record schema.columns 0 bitmapSize

/-! ## The values are those of the functions -/

section Values

attribute [local simp] writeAt setNullBit readAt nullBitIsSet readPaddedString

theorem value_readAt (record : Bytes) (pos size : Nat) :
    (readAt record pos size).value = RecordSerializer.readAt record pos size := by
  rw [readAt, value_ite, RecordSerializer.readAt]
  rfl

theorem value_fixedAreaSize (columns : List Column) (size : Nat) :
    (fixedAreaSize columns size).value =
      columns.foldl (fun size column => toUint16 (size + storageSize column)) size := by
  induction columns generalizing size with
  | nil => rfl
  | cons column columns ih =>
    rw [fixedAreaSize, value_bind, ih]
    rfl

theorem value_writeValue (out : Bytes) (pos : Nat) (column : Column) (value : Value) :
    (writeValue out pos column value).value = RecordSerializer.writeValue out pos column value := by
  rw [writeValue, RecordSerializer.writeValue]
  cases column.type <;> simp [toUint16]

theorem value_serializeColumns (columns : List Column) (row : Row) (i pos : Nat) (out : Bytes) :
    (serializeColumns columns row i pos out).value =
      RecordSerializer.serializeColumns columns row i pos out := by
  induction columns generalizing row i pos out with
  | nil => rfl
  | cons column columns ih =>
    cases row with
    | nil => rfl
    | cons value row =>
      rw [serializeColumns, RecordSerializer.serializeColumns, value_ite, value_ite, value_bind,
        value_bind, value_writeValue, ih]
      cases RecordSerializer.writeValue out pos column value with
      | none => rfl
      | some out' =>
        rw [Option.elim_some, ih]
        rfl

theorem value_serialize (schema : Schema) (row : Row) :
    (serialize schema row).value = RecordSerializer.serialize schema row := by
  rw [serialize, value_bind, value_ite, value_bind, value_bind, value_serializeColumns,
    value_fixedAreaSize]
  rfl

theorem value_readValue (record : Bytes) (pos : Nat) (column : Column) :
    (readValue record pos column).value = RecordSerializer.readValue record pos column := by
  rw [readValue, RecordSerializer.readValue]
  cases column.type with
  | time =>
    simp only [value_bind, value_readAt, value_pure]
    rfl
  | varstring | text =>
    simp only [value_bind, value_readAt, Option.bind_eq_bind]
    cases RecordSerializer.readAt record pos 2 with
    | none => rfl
    | some size =>
      rw [Option.elim_some, value_bind, value_readAt, Option.bind_some]
      cases RecordSerializer.readAt record (pos + 2) 2 with
      | none => rfl
      | some offset =>
        rw [Option.elim_some, value_ite]
        rfl
  | _ => simp [← value_readAt]

theorem value_readColumn (record : Bytes) (i pos : Nat) (column : Column) :
    (readColumn record i pos column).value = RecordSerializer.readColumn record i pos column := by
  rw [readColumn, value_bind, value_ite, value_readValue]
  rfl

theorem value_deserializeColumns (record : Bytes) (columns : List Column) (i pos : Nat) :
    (deserializeColumns record columns i pos).value =
      RecordSerializer.deserializeColumns record columns i pos := by
  induction columns generalizing i pos with
  | nil => rfl
  | cons column columns ih =>
    rw [deserializeColumns, RecordSerializer.deserializeColumns, value_bind, value_readColumn]
    cases RecordSerializer.readColumn record i pos column with
    | none => rfl
    | some value =>
      rw [Option.elim_some, value_bind, ih]
      cases RecordSerializer.deserializeColumns record columns (i + 1) (pos + storageSize column) <;>
        rfl

theorem value_deserialize (schema : Schema) (record : Bytes) :
    (deserialize schema record).value = RecordSerializer.deserialize schema record := by
  rw [deserialize, value_bind, value_ite, value_bind, value_ite, value_deserializeColumns,
    value_fixedAreaSize]
  rfl

end Values

end RecordAccess

end ScratchDb
