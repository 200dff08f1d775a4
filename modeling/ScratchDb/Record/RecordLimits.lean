import Mathlib.Data.List.Forall2
import ScratchDb.Record.RecordAccesses

/-!
# Where 16 bits suffice

A record is written as it should be exactly if its fixed area is smaller than
2^16 bytes and every text in it begins before that. A fixed area of this size is
also what keeps the reader inside of any bytes it is given.
-/

namespace ScratchDb

open Accesses Logged LittleEndian RecordSerializer

namespace RecordAccess

/-! ## The fixed area -/

theorem safe_fixedAreaSize_iff {columns : List Column} {size : Nat} (hsize : size < 2 ^ 16) :
    (fixedAreaSize columns size).Safe ↔ size + fixedSizes columns < 2 ^ 16 := by
  induction columns generalizing size with
  | nil =>
    rw [fixedAreaSize]
    exact iff_of_true (safe_pure _) hsize
  | cons column columns ih =>
    have hsizes : fixedSizes (column :: columns) = storageSize column + fixedSizes columns := rfl
    rw [fixedAreaSize, safe_bind, safe_narrow, value_narrow]
    constructor
    · rintro ⟨hfirst, hrest⟩
      rw [Nat.mod_eq_of_lt hfirst] at hrest
      have hrest := (ih hfirst).mp hrest
      omega
    · intro hall
      have hfirst : size + storageSize column < 2 ^ 16 := by omega
      rw [Nat.mod_eq_of_lt hfirst]
      exact ⟨hfirst, (ih hfirst).mpr (by omega)⟩

theorem value_fixedAreaSize_eq {columns : List Column} (h : fixedSizes columns < 2 ^ 16) :
    (fixedAreaSize columns 0).value = fixedSizes columns := by
  rw [value_fixedAreaSize, foldl_toUint16 (by omega), Nat.zero_add]

theorem safe_nullBitmapSize (schema : Schema) :
    (nullBitmapSize schema.columns.length).Safe := by
  have hcount := schema.columnsValid.2.1
  rw [nullBitmapSize, safe_narrow]
  omega

theorem value_nullBitmapSize (schema : Schema) :
    (nullBitmapSize schema.columns.length).value = (schema.columns.length + 7) / 8 :=
  nullBitmapSize_eq schema

/-! ## Writing -/

/-- Where the texts of a row go, the first at `offset`. -/
def variableOffsets : Nat → List Column → Row → List Nat
  | offset, column :: columns, value :: row =>
    (if isVariableType column.type = true ∧ value.isNull = false then [offset] else []) ++
      variableOffsets (offset + (variablePart column value).length) columns row
  | _, _, _ => []

theorem length_writeAt {out bytes : Bytes} {pos : Nat} (h : pos + bytes.length ≤ out.length) :
    (RecordSerializer.writeAt out pos bytes).length = out.length := by
  rw [RecordSerializer.writeAt, List.length_append, List.length_append, List.length_take,
    List.length_drop]
  omega

/-- The text of a value that fits its column has a 16-bit length. -/
theorem length_stringData_le {column : Column} {value : Value} (hvalid : column.isValid = true)
    (hm : value.matchesColumn column = true) (hvar : isVariableType column.type = true) :
    value.stringData.length ≤ 2048 := by
  have hmax : column.maxSize ≤ 2048 := by
    rw [isVariableType, Bool.or_eq_true, decide_eq_true_eq, decide_eq_true_eq] at hvar
    rw [Column.isValid] at hvalid
    rcases hvar with ht | ht
    · rw [ht] at hvalid
      simp only [Bool.and_eq_true, decide_eq_true_eq] at hvalid
      omega
    · rw [ht] at hvalid
      simp only [Bool.and_eq_true, decide_eq_true_eq] at hvalid
      omega
  rw [isVariableType, Bool.or_eq_true, decide_eq_true_eq, decide_eq_true_eq] at hvar
  cases value with
  | varstring text | text text | string text =>
    simp only [Value.matchesColumn, Bool.and_eq_true, decide_eq_true_eq] at hm
    exact hm.2.trans hmax
  | character text =>
    simp only [Value.matchesColumn, Bool.and_eq_true, decide_eq_true_eq] at hm
    rw [Value.stringData, hm.2]
    decide
  | _ => exact Nat.zero_le _

/-- A STRING value fits its place, a CHAR has one byte of its own. -/
theorem length_stringData_le_storageSize {column : Column} {value : Value}
    (hnull : value.isNull = false) (hm : value.matchesColumn column = true)
    (ht : column.type = .string) : value.stringData.length ≤ storageSize column := by
  have htype := (Value.type_eq_of_matchesColumn hnull hm).trans ht
  cases value with
  | string text =>
    simp only [Value.matchesColumn, Bool.and_eq_true, decide_eq_true_eq] at hm
    rw [storageSize, ht]
    exact hm.2
  | null => cases hnull
  | _ => cases htype

/-- A value is written to its place; a text is put behind everything, where an offset reaches. -/
theorem safe_writeValue_iff {column : Column} {value : Value} {out : Bytes} {pos : Nat}
    (hvalid : column.isValid = true) (hnull : value.isNull = false)
    (hm : value.matchesColumn column = true) (hroom : pos + storageSize column ≤ out.length) :
    (writeValue out pos column value).Safe ↔
      (isVariableType column.type = true → out.length < 2 ^ 16) := by
  rw [writeValue]
  cases ht : column.type with
  | nullType =>
    rw [Column.isValid, ht] at hvalid
    simp at hvalid
  | string =>
    have htext := length_stringData_le_storageSize hnull hm ht
    rw [safe_bind, writeAt, safe_touch]
    exact iff_of_true ⟨by omega, safe_pure _⟩ (by simp [isVariableType])
  | varstring | text =>
    have hvar : isVariableType column.type = true := by rw [ht]; rfl
    have htext := length_stringData_le hvalid hm hvar
    have hsize : storageSize column = 4 := by rw [storageSize, if_pos hvar]; rfl
    have hfirst : (RecordSerializer.writeAt out pos
        (encode 2 (value.stringData.length % 2 ^ 16))).length = out.length :=
      length_writeAt (by rw [length_encode]; omega)
    simp only [safe_bind, safe_narrow, writeAt, safe_touch, length_encode, value_narrow, value_touch,
      hfirst]
    constructor
    · rintro ⟨hoffset, -⟩ -
      exact hoffset
    · intro hoffset
      exact ⟨hoffset rfl, by omega, by omega, by omega, safe_pure _⟩
  | integer | number | character | date | time | datetime =>
    have hsize : storageSize column = Column.fixedSize column.type := by
      rw [storageSize, ht]
      rfl
    rw [ht, Column.fixedSize] at hsize
    rw [safe_bind, writeAt, safe_touch]
    refine iff_of_true ⟨?_, safe_pure _⟩ (by simp [isVariableType])
    simp only [length_encodeInt, length_encode, List.length_singleton]
    omega

/-- A text makes the array longer, all other values leave its length. -/
theorem length_of_writeValue {column : Column} {value : Value} {out written : Bytes} {pos : Nat}
    (hnull : value.isNull = false) (hm : value.matchesColumn column = true)
    (hroom : pos + storageSize column ≤ out.length)
    (h : RecordSerializer.writeValue out pos column value = some written) :
    written.length = out.length + (variablePart column value).length := by
  rw [RecordSerializer.writeValue] at h
  rw [variablePart]
  cases ht : column.type with
  | nullType =>
    rw [ht] at h
    cases h
  | string =>
    have htext := length_stringData_le_storageSize hnull hm ht
    rw [ht] at h
    cases h
    exact length_writeAt (by omega)
  | varstring | text =>
    have hsize : storageSize column = 4 := by rw [storageSize, ht]; rfl
    have hfirst : (RecordSerializer.writeAt out pos
        (encode 2 (toUint16 value.stringData.length))).length = out.length :=
      length_writeAt (by rw [length_encode]; omega)
    rw [ht] at h
    cases h
    rw [List.length_append, length_writeAt (by rw [length_encode, hfirst]; omega), hfirst]
    rfl
  | integer | number | character | date | time | datetime =>
    have hsize : storageSize column = Column.fixedSize column.type := by
      rw [storageSize, ht]
      rfl
    rw [ht, Column.fixedSize] at hsize
    rw [ht] at h
    cases h
    exact length_writeAt (by
      simp only [length_encodeInt, length_encode, List.length_singleton]
      omega)

theorem writeValue_ne_none {column : Column} (hvalid : column.isValid = true) (out : Bytes)
    (pos : Nat) (value : Value) : RecordSerializer.writeValue out pos column value ≠ none := by
  intro h
  rw [RecordSerializer.writeValue] at h
  cases ht : column.type with
  | nullType =>
    rw [Column.isValid, ht] at hvalid
    simp at hvalid
  | _ =>
    rw [ht] at h
    cases h

/-- A row that matches the columns is written, whatever the sizes. -/
theorem serializeColumns_ne_none {columns : List Column} {row : Row} {i pos : Nat} {out : Bytes}
    (hvalid : ∀ column ∈ columns, column.isValid = true) (hm : RowMatches columns row) :
    RecordSerializer.serializeColumns columns row i pos out ≠ none := by
  induction hm generalizing i pos out with
  | nil => exact Option.some_ne_none out
  | @cons column value columns row hvalue hrow ih =>
    have hcolumns : ∀ c ∈ columns, c.isValid = true := fun c hc =>
      hvalid c (List.mem_cons_of_mem _ hc)
    rw [RecordSerializer.serializeColumns, if_neg (by rw [hvalue]; exact Bool.noConfusion)]
    split
    · exact ih hcolumns
    · intro hnone
      rcases Option.bind_eq_none_iff.mp hnone with h
      cases hwritten : RecordSerializer.writeValue out pos column value with
      | none => exact writeValue_ne_none (hvalid column List.mem_cons_self) out pos value hwritten
      | some out' => exact ih hcolumns (h out' hwritten)

/-- The loop over the columns from column `i` on. -/
theorem safe_serializeColumns_iff {columns : List Column} {row : Row} {i pos : Nat} {out : Bytes}
    (hvalid : ∀ column ∈ columns, column.isValid = true) (hm : RowMatches columns row)
    (hbits : (i + columns.length + 7) / 8 ≤ out.length)
    (hroom : pos + fixedSizes columns ≤ out.length) :
    (serializeColumns columns row i pos out).Safe ↔
      ∀ offset ∈ variableOffsets out.length columns row, offset < 2 ^ 16 := by
  induction hm generalizing i pos out with
  | nil =>
    rw [serializeColumns]
    exact iff_of_true (safe_pure _) (by simp [variableOffsets])
  | @cons column value columns row hvalue hrow ih =>
    have hcolumn := hvalid column List.mem_cons_self
    have hcolumns : ∀ c ∈ columns, c.isValid = true := fun c hc =>
      hvalid c (List.mem_cons_of_mem _ hc)
    have hsizes : fixedSizes (column :: columns) = storageSize column + fixedSizes columns := rfl
    have hmatch : ¬ value.matchesColumn column = false := by rw [hvalue]; exact Bool.noConfusion
    rw [List.length_cons] at hbits
    rw [serializeColumns, if_neg hmatch, variableOffsets]
    cases hnull : value.isNull with
    | true =>
      have hlength : (RecordSerializer.setNullBit out i).length = out.length :=
        length_setNullBit out i
      rw [if_pos rfl, safe_bind, setNullBit, safe_touch, value_touch,
        ih hcolumns (by rw [hlength]; omega) (by rw [hlength]; omega), hlength,
        variablePart_of_isNull hnull, if_neg fun h => Bool.noConfusion h.2, List.nil_append]
      exact and_iff_right (by omega)
    | false =>
      have hplace : pos + storageSize column ≤ out.length := by omega
      rw [if_neg Bool.false_ne_true, safe_bind, value_writeValue,
        safe_writeValue_iff hcolumn hnull hvalue hplace]
      cases hwritten : RecordSerializer.writeValue out pos column value with
      | none => exact absurd hwritten (writeValue_ne_none hcolumn out pos value)
      | some out' =>
        have hlength := length_of_writeValue hnull hvalue hplace hwritten
        rw [Option.elim_some, ih hcolumns (by rw [hlength]; omega) (by rw [hlength]; omega),
          hlength, List.forall_mem_append]
        refine and_congr_left fun _ => ?_
        by_cases hvar : isVariableType column.type = true
        · rw [if_pos ⟨hvar, rfl⟩, List.forall_mem_singleton]
          exact ⟨fun h => h hvar, fun h _ => h⟩
        · rw [if_neg fun h => hvar h.1]
          exact iff_of_true (fun h => absurd h hvar) fun offset h => absurd h List.not_mem_nil

/-! ## Reading -/

theorem safe_readAt (record : Bytes) (pos size : Nat) : (readAt record pos size).Safe := by
  rw [readAt, safe_ite, safe_touch]
  exact ⟨fun _ => safe_pure _, fun h => by omega⟩

/-- The place of the column lies in the record; the place of a text is checked. -/
theorem safe_readValue {record : Bytes} {column : Column} {pos : Nat}
    (hroom : pos + storageSize column ≤ record.length) : (readValue record pos column).Safe := by
  rw [readValue]
  cases ht : column.type with
  | nullType => exact safe_pure _
  | character =>
    have hsize : storageSize column = 1 := by rw [storageSize, ht]; rfl
    exact safe_touch.mpr (by omega)
  | string =>
    have hsize : storageSize column = column.maxSize := by rw [storageSize, ht]; rfl
    rw [safe_bind, readPaddedString, safe_touch]
    exact ⟨by omega, safe_pure _⟩
  | varstring | text =>
    rw [safe_bind]
    refine ⟨safe_readAt record pos 2, ?_⟩
    cases (readAt record pos 2).value with
    | none => exact safe_pure _
    | some size =>
      rw [Option.elim_some, safe_bind]
      refine ⟨safe_readAt record (pos + 2) 2, ?_⟩
      cases (readAt record (pos + 2) 2).value with
      | none => exact safe_pure _
      | some offset =>
        rw [Option.elim_some, safe_ite, safe_bind, safe_touch]
        exact ⟨fun _ => safe_pure _, fun h => ⟨by omega, safe_pure _⟩⟩
  | integer | number | date | time | datetime => exact safe_bind.mpr ⟨safe_readAt _ _ _, safe_pure _⟩

theorem safe_deserializeColumns {record : Bytes} {columns : List Column} {i pos : Nat}
    (hbits : (i + columns.length + 7) / 8 ≤ record.length)
    (hroom : pos + fixedSizes columns ≤ record.length) :
    (deserializeColumns record columns i pos).Safe := by
  induction columns generalizing i pos with
  | nil => exact safe_pure _
  | cons column columns ih =>
    have hsizes : fixedSizes (column :: columns) = storageSize column + fixedSizes columns := rfl
    rw [List.length_cons] at hbits
    have hvalue : (readColumn record i pos column).Safe := by
      rw [readColumn, safe_bind, nullBitIsSet, safe_touch, safe_ite]
      exact ⟨by omega, fun _ => safe_pure _, fun _ => safe_readValue (by omega)⟩
    rw [deserializeColumns, safe_bind]
    refine ⟨hvalue, ?_⟩
    cases (readColumn record i pos column).value with
    | none => exact safe_pure _
    | some value => exact safe_bind.mpr ⟨ih (by omega) (by omega), safe_pure _⟩

theorem safe_deserialize {schema : Schema} (h : fixedSizes schema.columns < 2 ^ 16)
    (record : Bytes) : (deserialize schema record).Safe := by
  rw [deserialize, safe_bind, safe_ite, safe_bind, safe_ite, value_nullBitmapSize,
    value_fixedAreaSize_eq h]
  refine ⟨safe_nullBitmapSize schema, fun _ => safe_pure _, fun hbits => ?_⟩
  refine ⟨(safe_fixedAreaSize_iff (by decide)).mpr (by omega), fun _ => safe_pure _, fun hroom => ?_⟩
  exact safe_deserializeColumns (by omega) (by omega)

/-! ## Whole records -/

theorem serialize_ne_none {schema : Schema} {row : Row} (hm : RowMatches schema.columns row) :
    RecordSerializer.serialize schema row ≠ none := by
  have hcount := schema.columnsValid.2.1
  have hsame : row.length = schema.columns.length := hm.length_eq.symm
  have hcast : toUint16 row.length = schema.columns.length := by
    rw [hsame, toUint16, Nat.mod_eq_of_lt (by omega)]
  rw [RecordSerializer.serialize, if_neg (not_not.mpr hcast)]
  exact serializeColumns_ne_none schema.columnsValid.2.2.1 hm

/-- Where the first text of a record goes. -/
def variableStart (schema : Schema) : Nat :=
  (schema.columns.length + 7) / 8 + fixedSizes schema.columns

/-- The fixed area and the beginning of every text are below 2^16. -/
def LayoutFits (schema : Schema) (row : Row) : Prop :=
  fixedSizes schema.columns < 2 ^ 16 ∧
    ∀ offset ∈ variableOffsets (variableStart schema) schema.columns row, offset < 2 ^ 16

theorem safe_serialize_iff {schema : Schema} {row : Row} (hm : RowMatches schema.columns row) :
    (serialize schema row).Safe ↔ LayoutFits schema row := by
  have hcount := schema.columnsValid.2.1
  have hsame : row.length = schema.columns.length := hm.length_eq.symm
  have hcast : row.length % 2 ^ 16 = schema.columns.length := by
    rw [hsame, Nat.mod_eq_of_lt (by omega)]
  rw [serialize, safe_bind, safe_narrow, value_narrow, if_neg (not_not.mpr hcast), safe_bind,
    safe_fixedAreaSize_iff (by decide), Nat.zero_add, safe_bind, value_nullBitmapSize, LayoutFits,
    and_iff_right (by omega)]
  refine and_congr_right fun hfixed => ?_
  rw [value_fixedAreaSize_eq hfixed, and_iff_right (safe_nullBitmapSize schema),
    safe_serializeColumns_iff schema.columnsValid.2.2.1 hm (by rw [List.length_replicate]; omega)
      (by rw [List.length_replicate]), List.length_replicate]
  rfl

/-- All bytes that the call touches lie in the array. -/
def StaysInside {A : Type} (x : Logged A) : Prop :=
  ∀ offset size limit, .access offset size limit ∈ x.log → offset + size ≤ limit

/-- No number is cut off by a cast. -/
def KeepsNumbers {A : Type} (x : Logged A) : Prop :=
  ∀ n bound, .cast n bound ∈ x.log → n < bound

theorem safe_iff {A : Type} {x : Logged A} : x.Safe ↔ StaysInside x ∧ KeepsNumbers x := by
  constructor
  · intro h
    exact ⟨fun offset size limit => h (.access offset size limit), fun n bound => h (.cast n bound)⟩
  · rintro ⟨hinside, hnumbers⟩ e he
    cases e with
    | access offset size limit => exact hinside offset size limit he
    | cast n bound => exact hnumbers n bound he

/-- `serialize` fails or computes its sizes and offsets without truncation, and neither it nor
`deserialize`, on any bytes, leaves its array. -/
def LayoutExact (schema : Schema) (row : Row) : Prop :=
  ((serialize schema row).value = none ∨ KeepsNumbers (serialize schema row)) ∧
    StaysInside (serialize schema row) ∧ ∀ record, StaysInside (deserialize schema record)

/-- The arithmetic of a record is exact for the rows that fit 16 bits, and for no others. -/
theorem layoutExact_iff {schema : Schema} {row : Row} (hm : RowMatches schema.columns row) :
    LayoutExact schema row ↔ LayoutFits schema row := by
  rw [LayoutExact, value_serialize, or_iff_right (serialize_ne_none hm)]
  constructor
  · rintro ⟨hnumbers, hinside, -⟩
    exact (safe_serialize_iff hm).mp (safe_iff.mpr ⟨hinside, hnumbers⟩)
  · intro hfits
    obtain ⟨hinside, hnumbers⟩ := safe_iff.mp ((safe_serialize_iff hm).mpr hfits)
    exact ⟨hnumbers, hinside, fun record => (safe_iff.mp (safe_deserialize hfits.1 record)).1⟩

theorem layoutExact_noon :
    LayoutExact alarmsSchema [.varstring [110, 111, 111, 110], .time 43200] := by
  have hm : RowMatches alarmsSchema.columns [.varstring [110, 111, 111, 110], .time 43200] :=
    .cons (by decide) (.cons (by decide) .nil)
  exact (layoutExact_iff hm).mpr ⟨by decide, by decide⟩

/-- A table of 64 columns of STRING(1024). -/
def archiveSchema : Schema where
  tableName := "archive"
  columns := (List.range 64).map fun i =>
    { name := String.ofList (List.replicate (i + 1) 'a'), type := .string, nullable := true,
      maxSize := 1024, precision := 0, scale := 0 }
  constraints := []
  indexes := []
  storageMode := .disk
  nameValid := by decide
  columnsValid := by decide +kernel
  constraintsValid := by decide
  indexesValid := by decide

/-- The fixed area of 64 columns of 1024 bytes is taken for an empty one. -/
theorem archive_leaves_record : ¬ ∀ (schema : Schema) (row : Row), RowMatches schema.columns row →
    LayoutExact schema row := by
  intro h
  have hcolumn : ∀ column ∈ archiveSchema.columns,
      (Value.string [97]).matchesColumn column = true := by decide +kernel
  have hm : RowMatches archiveSchema.columns (List.replicate 64 (.string [97])) := by
    refine List.forall₂_iff_zip.mpr ⟨by decide +kernel, ?_⟩
    intro column value hmem
    obtain ⟨hc, hv⟩ := List.of_mem_zip hmem
    rw [List.eq_of_mem_replicate hv]
    exact hcolumn column hc
  obtain ⟨-, hinside, -⟩ := h archiveSchema _ hm
  -- the first text is written behind the eight bytes of the bitmap
  have hout : .access 8 1 8 ∈ (serialize archiveSchema (List.replicate 64 (.string [97]))).log := by
    decide +kernel
  exact absurd (hinside 8 1 8 hout) (by decide)

end RecordAccess

end ScratchDb
