import ScratchDb.Record.RowRoundTrip

/-!
# Rows that are written back

What `deserialize` takes from arbitrary bytes, and what `serialize` makes of it:
the same record with its texts moved together, the places of NULLs cleared and
the bits behind the last column forgotten. The reader checks the range of a TIME
but not the precision of a NUMBER, and the writer cuts off the offsets of texts.
-/

namespace ScratchDb

namespace RecordSerializer

open LittleEndian

/-! ## What stands in a record -/

def bytesAt (record : Bytes) (pos size : Nat) : Bytes := (record.drop pos).take size

/-- The text that a place points to, if it has one. -/
def storedText (record : Bytes) (i pos : Nat) (column : Column) : Bytes :=
  if isVariableType column.type = true ∧ nullBitIsSet record i = false then
    bytesAt record (decode (bytesAt record (pos + 2) 2)) (decode (bytesAt record pos 2))
  else []

/-- The place of a column when its text goes to `offset`. -/
def restoredPart (record : Bytes) (offset i pos : Nat) (column : Column) : Bytes :=
  if nullBitIsSet record i then List.replicate (storageSize column) 0
  else if isVariableType column.type then bytesAt record pos 2 ++ encode 2 (toUint16 offset)
  else bytesAt record pos (storageSize column)

/-- The NUMBERs are not longer than their columns, from column `i` on. -/
def NumbersFit (record : Bytes) : List Column → Nat → Nat → Prop
  | [], _, _ => True
  | column :: columns, i, pos =>
    (column.type = .number → nullBitIsSet record i = false →
        Value.digitCount (decodeInt (bytesAt record pos 8)).natAbs ≤ column.precision) ∧
      NumbersFit record columns (i + 1) (pos + storageSize column)

def restoredBitmap (record : Bytes) : Nat → Nat → Bytes → Bytes
  | 0, _, bitmap => bitmap
  | count + 1, i, bitmap =>
    restoredBitmap record count (i + 1)
      (if nullBitIsSet record i then setNullBit bitmap i else bitmap)

def restoredParts (record : Bytes) : Nat → List Column → Nat → Nat → Bytes
  | _, [], _, _ => []
  | offset, column :: columns, i, pos =>
    restoredPart record offset i pos column ++
      restoredParts record (offset + (storedText record i pos column).length) columns (i + 1)
        (pos + storageSize column)

def storedTexts (record : Bytes) : List Column → Nat → Nat → Bytes
  | [], _, _ => []
  | column :: columns, i, pos =>
    storedText record i pos column ++ storedTexts record columns (i + 1) (pos + storageSize column)

/-- Where the fixed area ends. -/
def textsStart (schema : Schema) : Nat :=
  nullBitmapSize schema.columns.length + fixedSizes schema.columns

/-- The record with its texts one behind the other. -/
def restored (schema : Schema) (record : Bytes) : Bytes :=
  restoredBitmap record schema.columns.length 0
      (List.replicate (nullBitmapSize schema.columns.length) 0) ++
    (restoredParts record (textsStart schema) schema.columns 0
        (nullBitmapSize schema.columns.length) ++
      storedTexts record schema.columns 0 (nullBitmapSize schema.columns.length))

/-- Each text of the record stands in `written` at its new offset, cut off to 16 bits. -/
def TextsKept (record written : Bytes) : Nat → List Column → Nat → Nat → Prop
  | _, [], _, _ => True
  | offset, column :: columns, i, pos =>
    bytesAt written (toUint16 offset) (storedText record i pos column).length =
        storedText record i pos column ∧
      TextsKept record written (offset + (storedText record i pos column).length) columns (i + 1)
        (pos + storageSize column)

/-! ## One value -/

theorem length_bytesAt {record : Bytes} {pos size : Nat} (h : pos + size ≤ record.length) :
    (bytesAt record pos size).length = size := by
  rw [bytesAt, List.length_take, List.length_drop]
  omega

theorem readAt_eq_some {record bytes : Bytes} {pos size : Nat}
    (h : readAt record pos size = some bytes) : bytes = bytesAt record pos size := by
  rw [readAt] at h
  split at h
  · cases h
  · exact (Option.some.inj h).symm

/-- The zeros that were taken off are those that fill up the place. -/
theorem rdropWhile_append_zeros (bytes : Bytes) :
    bytes.rdropWhile (· = 0) ++
      List.replicate (bytes.length - (bytes.rdropWhile (· = 0)).length) 0 = bytes := by
  have hsplit := @List.rdropWhile_append_rtakeWhile _ (· = (0 : UInt8)) bytes
  have hlength := congrArg List.length hsplit
  rw [List.length_append] at hlength
  have hzeros : bytes.rtakeWhile (· = 0) =
      List.replicate (bytes.length - (bytes.rdropWhile (· = 0)).length) 0 := by
    rw [List.eq_replicate_iff]
    refine ⟨by omega, fun b hb => ?_⟩
    exact of_decide_eq_true (List.mem_rtakeWhile_imp (p := fun b => decide (b = 0)) hb)
  rw [← hzeros, hsplit]

/-- What a value is that was read from a place. -/
structure ReadFrom (record : Bytes) (i pos : Nat) (column : Column) (value : Value) : Prop where
  representable : value.Representable
  withinDay : value.timeData < 86400
  trimmed : ∀ text, value = .string text → text.getLast? ≠ some 0
  isNull : value.isNull = nullBitIsSet record i
  text : variablePart column value = storedText record i pos column
  place : ∀ offset, fixedPart offset column value = restoredPart record offset i pos column
  fits : value.matchesColumn column = true ↔
    (column.type = .number → nullBitIsSet record i = false →
      Value.digitCount (decodeInt (bytesAt record pos 8)).natAbs ≤ column.precision)

/-- A NULL has the bit set in a column that takes it. -/
theorem readFrom_null {record : Bytes} {i pos : Nat} {column : Column}
    (hbit : nullBitIsSet record i = true) (hnullable : column.nullable = true) :
    ReadFrom record i pos column .null where
  representable := trivial
  withinDay := by decide
  trimmed := fun text h => by cases h
  isNull := hbit.symm
  text := by
    rw [variablePart_of_isNull rfl, storedText, if_neg fun h => by rw [hbit] at h; cases h.2]
  place := fun offset => by
    have hnull : Value.null.isNull = true := rfl
    rw [fixedPart, if_pos hnull, restoredPart, if_pos hbit]
  fits := iff_of_true hnullable fun _ h => by rw [hbit] at h; cases h

/-- A value that stands in its place. -/
theorem readFrom_fixed {record : Bytes} {i pos : Nat} {column : Column} {value : Value}
    (hbit : nullBitIsSet record i = false) (hvar : isVariableType column.type = false)
    (hnull : value.isNull = false) (hrep : value.Representable) (hday : value.timeData < 86400)
    (htrim : ∀ text, value = .string text → text.getLast? ≠ some 0)
    (hplace : ∀ offset,
      fixedPart offset column value = bytesAt record pos (storageSize column))
    (hfits : value.matchesColumn column = true ↔
      (column.type = .number →
        Value.digitCount (decodeInt (bytesAt record pos 8)).natAbs ≤ column.precision)) :
    ReadFrom record i pos column value where
  representable := hrep
  withinDay := hday
  trimmed := htrim
  isNull := hnull.trans hbit.symm
  text := by
    rw [variablePart, hvar, storedText, hvar, if_neg Bool.false_ne_true,
      if_neg fun h => Bool.false_ne_true h.1]
  place := fun offset => by
    rw [hplace, restoredPart, hbit, hvar, if_neg Bool.false_ne_true, if_neg Bool.false_ne_true]
  fits := hfits.trans ⟨fun h ht _ => h ht, fun h ht => h ht hbit⟩

/-- A text, with the size that stands in its place. -/
theorem readFrom_text {record : Bytes} {i pos : Nat} {column : Column} {value : Value}
    (hbit : nullBitIsSet record i = false) (hvar : isVariableType column.type = true)
    (hnull : value.isNull = false) (hrep : value.Representable) (hday : value.timeData = 0)
    (htrim : ∀ text, value ≠ .string text) (hroom : pos + 4 ≤ record.length)
    (hpart : ∀ offset, fixedPart offset column value =
      encode 2 (toUint16 value.stringData.length) ++ encode 2 (toUint16 offset))
    (htext : value.stringData =
      bytesAt record (decode (bytesAt record (pos + 2) 2)) (decode (bytesAt record pos 2)))
    (hsize : value.stringData.length = decode (bytesAt record pos 2))
    (hfits : value.matchesColumn column = true) : ReadFrom record i pos column value where
  representable := hrep
  withinDay := by rw [hday]; decide
  trimmed := fun text h => absurd h (htrim text)
  isNull := hnull.trans hbit.symm
  text := by
    rw [variablePart, if_pos hvar, storedText, if_pos ⟨hvar, hbit⟩, htext]
  place := fun offset => by
    have hlength : (bytesAt record pos 2).length = 2 := length_bytesAt (by omega)
    have hlt : decode (bytesAt record pos 2) < 2 ^ 16 := by
      have hlt := decode_lt (bytesAt record pos 2)
      rwa [hlength] at hlt
    have hback := encode_decode (bytesAt record pos 2)
    rw [hlength] at hback
    rw [hpart, hsize, toUint16, Nat.mod_eq_of_lt hlt, hback, restoredPart, hbit,
      if_neg Bool.false_ne_true, if_pos hvar]
  fits := by
    refine iff_of_true hfits fun ht => ?_
    rw [ht] at hvar
    cases hvar

/-- A signed number, with the bytes that it is written to. -/
theorem signed_of_readAt {record bytes : Bytes} {pos size : Nat}
    (h : readAt record pos size = some bytes) :
    encodeInt size (decodeInt bytes) = bytesAt record pos size ∧
      -(256 ^ size : Nat) ≤ 2 * decodeInt bytes ∧ 2 * decodeInt bytes < (256 ^ size : Nat) := by
  have hroom : pos + size ≤ record.length := by
    by_contra hout
    rw [readAt, if_pos (by omega)] at h
    cases h
  have hbytes := readAt_eq_some h
  have hlength : bytes.length = size := by rw [hbytes, length_bytesAt hroom]
  have hback := encodeInt_decodeInt bytes
  have hbounds := decodeInt_bounds bytes
  rw [hlength] at hback hbounds
  exact ⟨hback.trans hbytes, hbounds⟩

/-- The text that a place points to lies in the record and fits the column. -/
theorem text_of_readValue {record : Bytes} {pos : Nat} {column : Column} {value : Value}
    (hvar : isVariableType column.type = true) (h : readValue record pos column = some value) :
    ∃ text, text = bytesAt record (decode (bytesAt record (pos + 2) 2))
        (decode (bytesAt record pos 2)) ∧
      text.length = decode (bytesAt record pos 2) ∧ text.length ≤ column.maxSize ∧
      value = if column.type = .text then .text text else .varstring text := by
  have hbranch : readValue record pos column =
      (readAt record pos 2).bind fun sizeBytes => (readAt record (pos + 2) 2).bind fun offsetBytes =>
        if decode sizeBytes > column.maxSize ∨
          decode offsetBytes + decode sizeBytes > record.length then none
        else
          some (if column.type = .text then
            .text ((record.drop (decode offsetBytes)).take (decode sizeBytes))
          else .varstring ((record.drop (decode offsetBytes)).take (decode sizeBytes))) := by
    rw [isVariableType, Bool.or_eq_true, decide_eq_true_eq, decide_eq_true_eq] at hvar
    rcases hvar with ht | ht
    · rw [readValue, ht]
      rfl
    · rw [readValue, ht]
      rfl
  rw [hbranch] at h
  obtain ⟨sizeBytes, hsize, h⟩ := Option.bind_eq_some_iff.mp h
  obtain ⟨offsetBytes, hoffset, h⟩ := Option.bind_eq_some_iff.mp h
  rw [readAt_eq_some hsize, readAt_eq_some hoffset] at h
  split at h
  · cases h
  · rename_i hfits
    have hlength : (bytesAt record (decode (bytesAt record (pos + 2) 2))
        (decode (bytesAt record pos 2))).length = decode (bytesAt record pos 2) :=
      length_bytesAt (by omega)
    exact ⟨_, rfl, hlength, by omega, (Option.some.inj h).symm⟩

/-- A value that is read: a NUMBER may be too long, all others fit their columns. -/
theorem readFrom_readValue {record : Bytes} {i pos : Nat} {column : Column} {value : Value}
    (hbit : nullBitIsSet record i = false) (hroom : pos + storageSize column ≤ record.length)
    (h : readValue record pos column = some value) : ReadFrom record i pos column value := by
  have hday : 0 < 86400 := by decide
  have hno : ∀ {n : Value}, (∀ text, n ≠ .string text) →
      ∀ text, n = .string text → text.getLast? ≠ some 0 := fun hn text h => absurd h (hn text)
  cases ht : column.type with
  | nullType =>
    rw [readValue, ht] at h
    cases h
  | varstring =>
    have hvar : isVariableType column.type = true := by rw [ht]; rfl
    have hsize : storageSize column = 4 := by rw [storageSize, ht]; rfl
    obtain ⟨text, htext, hlength, hmax, rfl⟩ := text_of_readValue hvar h
    rw [ht, if_neg (by decide)]
    refine readFrom_text hbit hvar rfl trivial rfl (fun text h => by cases h) (by omega) ?_ htext
      hlength (by simpa [Value.matchesColumn, Value.type, ht] using hmax)
    intro offset
    rw [fixedPart, if_neg (by exact Bool.false_ne_true), ht]
  | text =>
    have hvar : isVariableType column.type = true := by rw [ht]; rfl
    have hsize : storageSize column = 4 := by rw [storageSize, ht]; rfl
    obtain ⟨text, htext, hlength, hmax, rfl⟩ := text_of_readValue hvar h
    rw [ht, if_pos rfl]
    refine readFrom_text hbit hvar rfl trivial rfl (fun text h => by cases h) (by omega) ?_ htext
      hlength (by simpa [Value.matchesColumn, Value.type, ht] using hmax)
    intro offset
    rw [fixedPart, if_neg (by exact Bool.false_ne_true), ht]
  | number =>
    have hsize : storageSize column = 8 := by rw [storageSize, ht]; rfl
    rw [readValue, ht] at h
    obtain ⟨bytes, hread, rfl⟩ := Option.map_eq_some_iff.mp h
    obtain ⟨hback, hlow, hhigh⟩ := signed_of_readAt hread
    norm_num at hlow hhigh
    refine readFrom_fixed hbit (by rw [ht]; rfl) rfl ⟨by omega, by omega⟩ hday
      (hno fun text h => by cases h) ?_ ?_
    · intro offset
      rw [fixedPart, if_neg (by exact Bool.false_ne_true), ht, hsize]
      exact hback
    · simp [Value.matchesColumn, Value.type, ht, ← readAt_eq_some hread]
  | integer | date | datetime =>
    have hsize : storageSize column = Column.fixedSize column.type := by
      rw [storageSize, ht]
      rfl
    rw [ht, Column.fixedSize] at hsize
    rw [readValue, ht] at h
    obtain ⟨bytes, hread, rfl⟩ := Option.map_eq_some_iff.mp h
    obtain ⟨hback, hlow, hhigh⟩ := signed_of_readAt hread
    norm_num at hlow hhigh
    refine readFrom_fixed hbit (by rw [ht]; rfl) rfl ⟨by omega, by omega⟩ hday
      (hno fun text h => by cases h) ?_ ?_
    · intro offset
      rw [fixedPart, if_neg (by exact Bool.false_ne_true), ht, hsize]
      exact hback
    · exact iff_of_true (by simp [Value.matchesColumn, Value.type, ht]) fun hn => by
        rw [ht] at hn
        cases hn
  | time =>
    have hsize : storageSize column = 4 := by rw [storageSize, ht]; rfl
    have hlength : (bytesAt record pos 4).length = 4 := length_bytesAt (by omega)
    have hback := encode_decode (bytesAt record pos 4)
    rw [hlength] at hback
    rw [readValue, ht] at h
    obtain ⟨bytes, hread, h⟩ := Option.bind_eq_some_iff.mp h
    rw [readAt_eq_some hread] at h
    dsimp only at h
    split at h
    · cases h
    · rename_i hin
      cases h
      refine readFrom_fixed hbit (by rw [ht]; rfl) rfl (by simp only [Value.Representable]; omega)
        (by simp only [Value.timeData]; omega) (hno fun text h => by cases h) ?_ ?_
      · intro offset
        rw [fixedPart, if_neg (by exact Bool.false_ne_true), ht, hsize]
        exact hback
      · exact iff_of_true (by simp [Value.matchesColumn, Value.type, ht]) fun hn => by
          rw [ht] at hn
          cases hn
  | character =>
    have hsize : storageSize column = 1 := by rw [storageSize, ht]; rfl
    have hin : pos < record.length := by omega
    rw [readValue, ht] at h
    cases h
    refine readFrom_fixed hbit (by rw [ht]; rfl) rfl trivial hday (hno fun text h => by cases h)
      ?_ ?_
    · intro offset
      rw [fixedPart, if_neg (by exact Bool.false_ne_true), ht, hsize, bytesAt,
        List.drop_eq_getElem_cons hin, List.getD_eq_getElem _ _ hin]
      rfl
    · exact iff_of_true (by simp [Value.matchesColumn, Value.type, ht]) fun hn => by
        rw [ht] at hn
        cases hn
  | string =>
    have hsize : storageSize column = column.maxSize := by rw [storageSize, ht]; rfl
    have hlength : (bytesAt record pos column.maxSize).length = column.maxSize :=
      length_bytesAt (by omega)
    have hpadded := rdropWhile_append_zeros (bytesAt record pos column.maxSize)
    have hprefix : (readPaddedString record pos column.maxSize).length ≤
        (bytesAt record pos column.maxSize).length :=
      (@List.rdropWhile_prefix _ (· = (0 : UInt8)) (bytesAt record pos column.maxSize)).length_le
    rw [hlength] at hpadded hprefix
    rw [readValue, ht] at h
    cases h
    refine readFrom_fixed hbit (by rw [ht]; rfl) rfl trivial hday ?_ ?_ ?_
    · intro text h hlast
      cases h
      have hne : readPaddedString record pos column.maxSize ≠ [] := by
        intro hempty
        rw [hempty] at hlast
        cases hlast
      have hnot := @List.rdropWhile_last_not _ (· = (0 : UInt8))
        (bytesAt record pos column.maxSize) hne
      rw [List.getLast?_eq_some_getLast hne] at hlast
      exact hnot (decide_eq_true (Option.some.inj hlast))
    · intro offset
      rw [fixedPart, if_neg (by exact Bool.false_ne_true), ht, hsize]
      exact hpadded
    · refine iff_of_true ?_ fun hn => by
        rw [ht] at hn
        cases hn
      simpa [Value.matchesColumn, Value.type, ht] using hprefix

/-! ## All values -/

/-- The values of a row, from column `i` on. -/
inductive RowReadFrom (record : Bytes) : List Column → Nat → Nat → Row → Prop
  | nil (i pos : Nat) : RowReadFrom record [] i pos []
  | cons {column : Column} {columns : List Column} {i pos : Nat} {value : Value} {row : Row}
      (first : ReadFrom record i pos column value)
      (rest : RowReadFrom record columns (i + 1) (pos + storageSize column) row) :
      RowReadFrom record (column :: columns) i pos (value :: row)

theorem rowReadFrom_of_deserializeColumns {record : Bytes} {columns : List Column} {i pos : Nat}
    {row : Row} (hroom : pos + fixedSizes columns ≤ record.length)
    (h : deserializeColumns record columns i pos = some row) :
    RowReadFrom record columns i pos row := by
  induction columns generalizing i pos row with
  | nil =>
    cases h
    exact .nil i pos
  | cons column columns ih =>
    have hsizes : fixedSizes (column :: columns) = storageSize column + fixedSizes columns := rfl
    rw [deserializeColumns] at h
    obtain ⟨value, hvalue, h⟩ := Option.bind_eq_some_iff.mp h
    obtain ⟨rest, hrest, h⟩ := Option.bind_eq_some_iff.mp h
    cases h
    refine .cons ?_ (ih (by omega) hrest)
    rw [readColumn] at hvalue
    cases hbit : nullBitIsSet record i with
    | true =>
      rw [hbit, if_pos rfl] at hvalue
      split at hvalue
      · rename_i hnullable
        cases hvalue
        exact readFrom_null hbit hnullable
      · cases hvalue
    | false =>
      rw [hbit, if_neg Bool.false_ne_true] at hvalue
      exact readFrom_readValue hbit (by omega) hvalue

namespace RowReadFrom

variable {record : Bytes} {columns : List Column} {i pos : Nat} {row : Row}

theorem values (h : RowReadFrom record columns i pos row) :
    ∀ v ∈ row, v.Representable ∧ v.timeData < 86400 ∧
      ∀ text, v = .string text → text.getLast? ≠ some 0 := by
  induction h with
  | nil => exact fun v hv => absurd hv List.not_mem_nil
  | cons first rest ih =>
    refine List.forall_mem_cons.mpr ⟨⟨first.representable, first.withinDay, first.trimmed⟩, ih⟩

theorem rowMatches_iff (h : RowReadFrom record columns i pos row) :
    RowMatches columns row ↔ NumbersFit record columns i pos := by
  induction h with
  | nil => exact iff_of_true .nil trivial
  | cons first rest ih => rw [RowMatches, List.forall₂_cons, NumbersFit, first.fits, ← ih, RowMatches]

theorem bitmapAfter_eq (h : RowReadFrom record columns i pos row) (bitmap : Bytes) :
    bitmapAfter i row bitmap = restoredBitmap record columns.length i bitmap := by
  induction h generalizing bitmap with
  | nil => rfl
  | cons first rest ih => rw [bitmapAfter, List.length_cons, restoredBitmap, ih, first.isNull]

theorem fixedParts_eq (h : RowReadFrom record columns i pos row) (offset : Nat) :
    fixedParts offset columns row = restoredParts record offset columns i pos := by
  induction h generalizing offset with
  | nil => rfl
  | cons first rest ih => rw [fixedParts, restoredParts, ih, first.place, first.text]

theorem variableParts_eq (h : RowReadFrom record columns i pos row) :
    variableParts columns row = storedTexts record columns i pos := by
  induction h with
  | nil => rfl
  | cons first rest ih => rw [variableParts, storedTexts, ih, first.text]

theorem textsAt_iff (h : RowReadFrom record columns i pos row) (written : Bytes) (offset : Nat) :
    TextsAt written offset columns row ↔ TextsKept record written offset columns i pos := by
  induction h generalizing offset with
  | nil => exact Iff.rfl
  | cons first rest ih => rw [TextsAt, TextsKept, ih, first.text, bytesAt]

end RowReadFrom

/-! ## Records -/

/-- What a record is for its reader: each value stands in its place. -/
theorem rowReadFrom_of_deserialize {schema : Schema} {record : Bytes} {row : Row}
    (hfixed : fixedSizes schema.columns < 2 ^ 16) (h : deserialize schema record = some row) :
    RowReadFrom record schema.columns 0 (nullBitmapSize schema.columns.length) row := by
  rw [deserialize, fixedAreaSize_eq hfixed] at h
  split at h
  · cases h
  · split at h
    · cases h
    · exact rowReadFrom_of_deserializeColumns (by omega) h

/-- An accepted record is written back as it was, up to its texts, its NULLs and spare bits. -/
theorem recordOf_eq_restored {schema : Schema} {record : Bytes} {row : Row}
    (hfixed : fixedSizes schema.columns < 2 ^ 16) (h : deserialize schema record = some row) :
    recordOf schema row = restored schema record := by
  have hread := rowReadFrom_of_deserialize hfixed h
  rw [recordOf, restored, hread.bitmapAfter_eq, hread.fixedParts_eq, hread.variableParts_eq,
    textsStart]

/-- The NUMBERs of the record fit their columns. -/
def PrecisionsKept (schema : Schema) (record : Bytes) : Prop :=
  NumbersFit record schema.columns 0 (nullBitmapSize schema.columns.length)

/-- Each text of the record is found where the cut off offset points to after they are moved. -/
def TextsReachable (schema : Schema) (record : Bytes) : Prop :=
  TextsKept record (restored schema record) (textsStart schema) schema.columns 0
    (nullBitmapSize schema.columns.length)

/-- The decoded values match their columns, and the row is encoded and decoded as it is. -/
def WritableBack (schema : Schema) (row : Row) : Prop :=
  RowMatches schema.columns row ∧
    ∃ written, serialize schema row = some written ∧ deserialize schema written = some row

/-- An accepted record can be written back exactly if its NUMBERs fit their columns and the 16-bit
offsets reach its texts. -/
theorem writableBack_iff {schema : Schema} {record : Bytes} {row : Row}
    (hfixed : fixedSizes schema.columns < 2 ^ 16) (h : deserialize schema record = some row) :
    WritableBack schema row ↔ PrecisionsKept schema record ∧ TextsReachable schema record := by
  have hread := rowReadFrom_of_deserialize hfixed h
  have hvalues := hread.values
  rw [WritableBack, PrecisionsKept, ← hread.rowMatches_iff]
  refine and_congr_right fun hm => ?_
  have hback := deserialize_recordOf_iff hm hfixed (fun v hv => (hvalues v hv).1)
    fun text htext => (hvalues _ htext).2.2 text rfl
  rw [serialize_of_rowMatches hm hfixed, TextsReachable, ← hread.textsAt_iff,
    ← recordOf_eq_restored hfixed h, textsStart]
  constructor
  · rintro ⟨written, hwritten, hrow⟩
    cases hwritten
    exact (hback.mp hrow).2
  · intro htexts
    exact ⟨_, rfl, hback.mpr ⟨fun v hv => (hvalues v hv).2.1, htexts⟩⟩

/-- Texts that end before 2^16 are reached. -/
theorem textsReachable_of_short {schema : Schema} {record : Bytes} {row : Row}
    (hfixed : fixedSizes schema.columns < 2 ^ 16) (h : deserialize schema record = some row)
    (hm : RowMatches schema.columns row) (hsize : (restored schema record).length ≤ 65535) :
    TextsReachable schema record := by
  have hread := rowReadFrom_of_deserialize hfixed h
  rw [TextsReachable, ← hread.textsAt_iff]
  rw [← recordOf_eq_restored hfixed h] at hsize ⊢
  exact textsAt_recordOf hm hsize

/-- A text in the middle of the record is moved to the end of the fixed area. -/
theorem writableBack_alarm : WritableBack alarmsSchema [.varstring [110, 111], .time 43200] := by
  have h : deserialize alarmsSchema [0, 2, 0, 10, 0, 192, 168, 0, 0, 33, 110, 111] =
      some [.varstring [110, 111], .time 43200] := by decide
  refine (writableBack_iff (by decide) h).mpr ⟨⟨?_, ?_, trivial⟩, ⟨?_, ?_, trivial⟩⟩
  · intro ht
    cases ht
  · intro ht
    cases ht
  · decide
  · decide

/-- A table of one column NUMBER(1, 0). -/
def gradesSchema : Schema where
  tableName := "grades"
  columns :=
    [{ name := "grade", type := .number, nullable := false, maxSize := 8, precision := 1,
       scale := 0 }]
  constraints := []
  indexes := []
  storageMode := .disk
  nameValid := by decide
  columnsValid := by decide
  constraintsValid := by decide
  indexesValid := by decide

/-- The reader does not look at the precision of a NUMBER. -/
theorem grade_of_two_digits_accepted : ¬ ∀ (schema : Schema) (record : Bytes) (row : Row),
    fixedSizes schema.columns < 2 ^ 16 → deserialize schema record = some row →
      WritableBack schema row := by
  intro h
  have hread : deserialize gradesSchema [0, 10, 0, 0, 0, 0, 0, 0, 0] = some [.number 10] := by decide
  obtain ⟨-, written, hwritten, -⟩ := h _ _ _ (by decide) hread
  have hrefused : serialize gradesSchema [.number 10] = none := by decide
  rw [hrefused] at hwritten
  cases hwritten

end RecordSerializer

end ScratchDb
