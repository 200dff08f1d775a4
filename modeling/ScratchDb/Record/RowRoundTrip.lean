import ScratchDb.Record.RowLayout

/-!
# Reading rows back

Each value is read from its own place. `serialize` takes every TIME, while
`deserialize` refuses those of 86400 seconds and more; and a row is counted in
16 bits, so that one with 65536 values too many is taken as well. All other
rows come back as they were.
-/

namespace ScratchDb

namespace RecordSerializer

open LittleEndian

theorem readAt_append {front piece back : Bytes} {size : Nat} (h : piece.length = size) :
    readAt (front ++ (piece ++ back)) front.length size = some piece := by
  subst h
  rw [readAt, if_neg (by rw [List.length_append, List.length_append]; omega), List.drop_left,
    List.take_left]

/-- The zeros that fill up a string are taken off again. -/
theorem readPaddedString_append {front text back : Bytes} {size : Nat} (h : text.length ≤ size)
    (hend : text.getLast? ≠ some 0) :
    readPaddedString (front ++ (text ++ List.replicate (size - text.length) 0 ++ back))
      front.length size = text := by
  have hlength : (text ++ List.replicate (size - text.length) (0 : UInt8)).length = size := by
    rw [List.length_append, List.length_replicate]
    omega
  rw [readPaddedString, List.drop_left, List.take_left' hlength]
  have hzeros : (text ++ List.replicate (size - text.length) (0 : UInt8)).rdropWhile (· = 0) =
      text.rdropWhile (· = 0) := by
    rw [List.rdropWhile, List.reverse_append, List.reverse_replicate,
      List.dropWhile_append_of_pos fun b hb => by simp [List.eq_of_mem_replicate hb]]
    rfl
  rw [hzeros, List.rdropWhile_eq_self_iff]
  intro hne hlast
  exact hend (by rw [List.getLast?_eq_some_getLast hne, of_decide_eq_true hlast])

/-- The size of a text is read back where it fits 16 bits, its offset as it was cut off. -/
theorem readAt_pointer {front back : Bytes} {size offset : Nat} (hsize : size < 2 ^ 16) :
    let record :=
      front ++ (encode 2 (toUint16 size) ++ encode 2 (toUint16 offset) ++ back)
    (readAt record front.length 2).map decode = some size ∧
      (readAt record (front.length + 2) 2).map decode = some (toUint16 offset) := by
  intro record
  have hfirst : record =
      front ++ (encode 2 (toUint16 size) ++ (encode 2 (toUint16 offset) ++ back)) := by
    simp only [record, List.append_assoc]
  have hsecond : record =
      (front ++ encode 2 (toUint16 size)) ++ (encode 2 (toUint16 offset) ++ back) := by
    simp only [record, List.append_assoc]
  have hpos : front.length + 2 = (front ++ encode 2 (toUint16 size)).length := by
    rw [List.length_append, length_encode]
  have hoffset : toUint16 offset < 2 ^ 16 := Nat.mod_lt _ (by decide)
  constructor
  · rw [hfirst, readAt_append (length_encode 2 _), Option.map_some,
      toUint16, Nat.mod_eq_of_lt hsize, decode_encode hsize]
  · rw [hpos, hsecond, readAt_append (length_encode 2 _), Option.map_some, decode_encode hoffset]

/-- The value with another text. -/
def withText (text : Bytes) : Value → Value
  | .varstring _ => .varstring text
  | .text _ => .text text
  | value => value

/-- A text is kept exactly if it is the one that was written. -/
theorem withText_eq_iff {column : Column} {value : Value} {text : Bytes}
    (hnull : value.isNull = false) (hm : value.matchesColumn column = true)
    (hlength : text.length ≤ (variablePart column value).length) :
    withText text value = value ↔ text = variablePart column value := by
  have htype := Value.type_eq_of_matchesColumn hnull hm
  cases value with
  | null => cases hnull
  | varstring written =>
    have hpart : variablePart column (.varstring written) = written := by
      rw [variablePart, ← htype]
      rfl
    rw [hpart, withText, Value.varstring.injEq]
  | text written =>
    have hpart : variablePart column (.text written) = written := by
      rw [variablePart, ← htype]
      rfl
    rw [hpart, withText, Value.text.injEq]
  | integer | number | character | string | date | time | datetime =>
    have hpart : ∀ value, variablePart column value = [] := by
      intro value
      rw [variablePart, ← htype]
      rfl
    rw [hpart] at hlength ⊢
    exact iff_of_true rfl (List.length_eq_zero_iff.mp (Nat.le_zero.mp hlength))

/-- The largest text. -/
theorem maxSize_le {column : Column} (hvalid : column.isValid = true)
    (hvar : isVariableType column.type = true) : column.maxSize ≤ 2048 := by
  rw [isVariableType, Bool.or_eq_true, decide_eq_true_eq, decide_eq_true_eq] at hvar
  rw [Column.isValid] at hvalid
  rcases hvar with ht | ht
  · rw [ht] at hvalid
    simp only [Bool.and_eq_true, decide_eq_true_eq] at hvalid
    omega
  · rw [ht] at hvalid
    simp only [Bool.and_eq_true, decide_eq_true_eq] at hvalid
    omega

/-- A value is read from its fixed part, with the text that this points to. -/
theorem readValue_eq {front back : Bytes} {offset : Nat} {column : Column} {value : Value}
    (hcolumn : column.isValid = true) (hnull : value.isNull = false)
    (hm : value.matchesColumn column = true) (hvalue : value.Representable)
    (hend : ∀ text, value = .string text → text.getLast? ≠ some 0)
    (hroom : toUint16 offset + (variablePart column value).length ≤
      (front ++ (fixedPart offset column value ++ back)).length) :
    readValue (front ++ (fixedPart offset column value ++ back)) front.length column =
      if value.timeData < 86400 then
        some (withText (((front ++ (fixedPart offset column value ++ back)).drop
          (toUint16 offset)).take (variablePart column value).length) value)
      else none := by
  have htype := Value.type_eq_of_matchesColumn hnull hm
  have hpart : fixedPart offset column value = _ :=
    if_neg (by rw [hnull]; exact Bool.false_ne_true)
  have hday : 0 < 86400 := by decide
  cases value with
  | null => cases hnull
  | integer n =>
    have ht : column.type = .integer := htype.symm
    simp only [ht] at hpart
    rw [hpart, readValue, ht, if_pos (show (Value.integer n).timeData < 86400 from hday)]
    simp only [Value.Representable] at hvalue
    simp only [readAt_append (length_encodeInt 8 _), Value.integerData, Option.map_some]
    rw [decodeInt_encodeInt (by norm_num; omega) (by norm_num; omega)]
    rfl
  | number n =>
    have ht : column.type = .number := htype.symm
    simp only [ht] at hpart
    rw [hpart, readValue, ht, if_pos (show (Value.number n).timeData < 86400 from hday)]
    simp only [Value.Representable] at hvalue
    simp only [readAt_append (length_encodeInt 8 _), Value.numberData, Option.map_some]
    rw [decodeInt_encodeInt (by norm_num; omega) (by norm_num; omega)]
    rfl
  | date n =>
    have ht : column.type = .date := htype.symm
    simp only [ht] at hpart
    rw [hpart, readValue, ht, if_pos (show (Value.date n).timeData < 86400 from hday)]
    simp only [Value.Representable] at hvalue
    simp only [readAt_append (length_encodeInt 4 _), Value.dateData, Option.map_some]
    rw [decodeInt_encodeInt (by norm_num; omega) (by norm_num; omega)]
    rfl
  | datetime n =>
    have ht : column.type = .datetime := htype.symm
    simp only [ht] at hpart
    rw [hpart, readValue, ht, if_pos (show (Value.datetime n).timeData < 86400 from hday)]
    simp only [Value.Representable] at hvalue
    simp only [readAt_append (length_encodeInt 8 _), Value.datetimeData, Option.map_some]
    rw [decodeInt_encodeInt (by norm_num; omega) (by norm_num; omega)]
    rfl
  | time n =>
    have ht : column.type = .time := htype.symm
    simp only [ht] at hpart
    simp only [Value.Representable] at hvalue
    have hread : readValue (front ++ (fixedPart offset column (.time n) ++ back)) front.length
        column = if n ≥ 86400 then none else some (.time n) := by
      rw [hpart, readValue, ht]
      simp only [readAt_append (length_encode 4 _), Value.timeData, Option.bind_eq_bind,
        Option.bind_some]
      rw [decode_encode (by norm_num; omega)]
    rcases lt_or_ge n 86400 with hin | hout
    · rw [hread, if_neg (by omega), if_pos (show (Value.time n).timeData < 86400 from hin)]
      rfl
    · rw [hread, if_pos hout,
        if_neg (show ¬ (Value.time n).timeData < 86400 from not_lt.mpr hout)]
  | character text =>
    have ht : column.type = .character := htype.symm
    simp only [ht] at hpart
    rw [hpart, readValue, ht, if_pos (show (Value.character text).timeData < 86400 from hday)]
    simp only [Value.matchesColumn, Bool.and_eq_true, decide_eq_true_eq] at hm
    obtain ⟨c, rfl⟩ := List.length_eq_one_iff.mp hm.2
    simp [Value.stringData, withText]
  | string text =>
    have ht : column.type = .string := htype.symm
    simp only [ht] at hpart
    rw [hpart, readValue, ht, if_pos (show (Value.string text).timeData < 86400 from hday)]
    simp only [Value.matchesColumn, Bool.and_eq_true, decide_eq_true_eq] at hm
    exact congrArg (fun text => some (Value.string text))
      (readPaddedString_append hm.2 (hend text rfl))
  | varstring text =>
    have ht : column.type = .varstring := htype.symm
    have hvar : variablePart column (.varstring text) = text := by
      rw [variablePart, ht]
      rfl
    simp only [Value.matchesColumn, Bool.and_eq_true, decide_eq_true_eq] at hm
    have hmax := maxSize_le hcolumn (by rw [ht]; rfl)
    rw [hvar] at hroom ⊢
    have hpointer := @readAt_pointer front back text.length offset (by omega)
    simp only [ht, Value.stringData] at hpart
    simp only [← hpart] at hpointer
    obtain ⟨size, hsizeAt, hsizeIs⟩ := Option.map_eq_some_iff.mp hpointer.1
    obtain ⟨start, hstartAt, hstartIs⟩ := Option.map_eq_some_iff.mp hpointer.2
    rw [readValue, ht, if_pos (show (Value.varstring text).timeData < 86400 from hday)]
    simp only [hsizeAt, hstartAt, hsizeIs, hstartIs, Option.bind_eq_bind, Option.bind_some]
    rw [if_neg (by omega), withText, if_neg (by decide)]
  | text text =>
    have ht : column.type = .text := htype.symm
    have hvar : variablePart column (.text text) = text := by
      rw [variablePart, ht]
      rfl
    simp only [Value.matchesColumn, Bool.and_eq_true, decide_eq_true_eq] at hm
    have hmax := maxSize_le hcolumn (by rw [ht]; rfl)
    rw [hvar] at hroom ⊢
    have hpointer := @readAt_pointer front back text.length offset (by omega)
    simp only [ht, Value.stringData] at hpart
    simp only [← hpart] at hpointer
    obtain ⟨size, hsizeAt, hsizeIs⟩ := Option.map_eq_some_iff.mp hpointer.1
    obtain ⟨start, hstartAt, hstartIs⟩ := Option.map_eq_some_iff.mp hpointer.2
    rw [readValue, ht, if_pos (show (Value.text text).timeData < 86400 from hday)]
    simp only [hsizeAt, hstartAt, hsizeIs, hstartIs, Option.bind_eq_bind, Option.bind_some]
    rw [if_neg (by omega), withText, if_pos trivial]

theorem length_fixedParts {columns : List Column} {row : Row}
    (hvalid : ∀ column ∈ columns, column.isValid = true) (hm : RowMatches columns row)
    (offset : Nat) : (fixedParts offset columns row).length = fixedSizes columns := by
  induction hm generalizing offset with
  | nil => rfl
  | @cons column value columns row hvalue hrow ih =>
    rw [fixedParts, List.length_append, ih fun c hc => hvalid c (List.mem_cons_of_mem _ hc),
      length_fixedPart (hvalid column List.mem_cons_self) hvalue]
    rfl

/-- The texts of a row stand where their offsets point to, the first at `offset`. -/
def TextsAt (record : Bytes) : Nat → List Column → Row → Prop
  | offset, column :: columns, value :: row =>
    (record.drop (toUint16 offset)).take (variablePart column value).length =
        variablePart column value ∧
      TextsAt record (offset + (variablePart column value).length) columns row
  | _, _, _ => True

/-- Offsets that fit 16 bits point to the texts. -/
theorem textsAt_append {front back : Bytes} {columns : List Column} {row : Row}
    (hsize : (front ++ (variableParts columns row ++ back)).length ≤ 65535) :
    TextsAt (front ++ (variableParts columns row ++ back)) front.length columns row := by
  induction columns generalizing row front with
  | nil => trivial
  | cons column columns ih =>
    cases row with
    | nil => trivial
    | cons value row =>
      rw [variableParts, List.append_assoc] at hsize ⊢
      have hoffset : toUint16 front.length = front.length := by
        rw [List.length_append] at hsize
        exact Nat.mod_eq_of_lt (by omega)
      have hrest := @ih (front ++ variablePart column value) row
      rw [List.append_assoc] at hrest
      rw [TextsAt, ← List.length_append]
      refine ⟨?_, hrest hsize⟩
      rw [hoffset, List.drop_left, List.take_left]

/-- The loop reads the row from column `i` on, if no TIME stops it and the texts are found. -/
theorem deserializeColumns_eq_some_iff {columns : List Column} {row : Row} {i : Nat}
    {record front back : Bytes} {offset : Nat}
    (hvalid : ∀ column ∈ columns, column.isValid = true)
    (hm : RowMatches columns row) (hvalues : ∀ v ∈ row, v.Representable)
    (hends : ∀ text, .string text ∈ row → text.getLast? ≠ some 0)
    (hbits : ∀ (j : Nat) (hj : j < row.length), nullBitIsSet record (i + j) = row[j].isNull)
    (hrecord : record = front ++ (fixedParts offset columns row ++ back))
    (hroom : offset + (variableParts columns row).length ≤ record.length) :
    deserializeColumns record columns i front.length = some row ↔
      (∀ v ∈ row, v.timeData < 86400) ∧ TextsAt record offset columns row := by
  induction hm generalizing i front offset with
  | nil =>
    rw [deserializeColumns]
    exact iff_of_true rfl ⟨fun v hv => absurd hv List.not_mem_nil, trivial⟩
  | @cons column value columns row hvalue hrow ih =>
    have hcolumn := hvalid column List.mem_cons_self
    have hcolumns : ∀ c ∈ columns, c.isValid = true := fun c hc =>
      hvalid c (List.mem_cons_of_mem _ hc)
    have hlength := length_fixedPart hcolumn hvalue offset
    have hbit : nullBitIsSet record i = value.isNull := hbits 0 (by rw [List.length_cons]; omega)
    have hmod : toUint16 offset ≤ offset := Nat.mod_le _ _
    rw [fixedParts, List.append_assoc] at hrecord
    rw [variableParts, List.length_append] at hroom
    -- the value read is the value written, with the text that stands there
    have hread : readColumn record i front.length column = some value ↔
        value.timeData < 86400 ∧
          (record.drop (toUint16 offset)).take (variablePart column value).length =
            variablePart column value := by
      rw [readColumn, hbit]
      cases hnull : value.isNull with
      | true =>
        rw [variablePart_of_isNull hnull]
        cases value with
        | null =>
          have hnullable : column.nullable = true := hvalue
          rw [if_pos rfl, if_pos hnullable]
          exact iff_of_true rfl ⟨by decide, rfl⟩
        | _ => cases hnull
      | false =>
        have hvalueRead := @readValue_eq front
          (fixedParts (offset + (variablePart column value).length) columns row ++ back) offset
          column value hcolumn hnull hvalue (hvalues value List.mem_cons_self)
          (fun text htext => hends text (by rw [htext]; exact List.mem_cons_self))
          (by rw [← hrecord]; omega)
        rw [← hrecord] at hvalueRead
        rw [if_neg Bool.false_ne_true, hvalueRead]
        split
        · rename_i hday
          rw [Option.some.injEq, withText_eq_iff hnull hvalue (List.length_take_le _ _),
            and_iff_right hday]
        · rename_i hday
          exact iff_of_false (Option.some_ne_none value).symm fun h => hday h.1
    -- the rest stands behind it
    have hpos : front.length + storageSize column =
        (front ++ fixedPart offset column value).length := by
      rw [List.length_append, hlength]
    have hrest := @ih (i + 1) (front ++ fixedPart offset column value)
      (offset + (variablePart column value).length) hcolumns
      (fun v hv => hvalues v (List.mem_cons_of_mem _ hv))
      (fun text htext => hends text (List.mem_cons_of_mem _ htext))
      (fun j hj => by
        rw [Nat.add_assoc, Nat.add_comm 1 j]
        exact hbits (j + 1) (by rw [List.length_cons]; omega))
      (by rw [hrecord, List.append_assoc]) (by omega)
    rw [deserializeColumns, hpos, TextsAt, List.forall_mem_cons]
    constructor
    · intro h
      obtain ⟨v, hv, hvs⟩ := Option.bind_eq_some_iff.mp h
      obtain ⟨vs, hrow', heq⟩ := Option.bind_eq_some_iff.mp hvs
      cases heq
      obtain ⟨hday, htext⟩ := hread.mp hv
      obtain ⟨hdays, htexts⟩ := hrest.mp hrow'
      exact ⟨⟨hday, hdays⟩, htext, htexts⟩
    · rintro ⟨⟨hday, hdays⟩, htext, htexts⟩
      rw [hread.mpr ⟨hday, htext⟩, hrest.mpr ⟨hdays, htexts⟩]
      rfl

theorem length_of_deserializeColumns {record : Bytes} {columns : List Column} {i fixedPos : Nat}
    {row : Row} (h : deserializeColumns record columns i fixedPos = some row) :
    row.length = columns.length := by
  induction columns generalizing i fixedPos row with
  | nil =>
    cases h
    rfl
  | cons column columns ih =>
    rw [deserializeColumns] at h
    obtain ⟨value, -, hvalue⟩ := Option.bind_eq_some_iff.mp h
    obtain ⟨rest, hrest, hrow⟩ := Option.bind_eq_some_iff.mp hvalue
    cases hrow
    rw [List.length_cons, List.length_cons, ih hrest]

/-! ## Whole records -/

/-- The size of the encoded row, unbounded. -/
def encodedSize (columns : List Column) (row : Row) : Nat :=
  (columns.length + 7) / 8 + fixedSizes columns +
    ((columns.zip row).map fun cell => (variablePart cell.1 cell.2).length).sum

theorem length_variableParts (columns : List Column) (row : Row) :
    (variableParts columns row).length =
      ((columns.zip row).map fun cell => (variablePart cell.1 cell.2).length).sum := by
  induction columns generalizing row with
  | nil => rfl
  | cons column columns ih =>
    cases row with
    | nil => rfl
    | cons value row =>
      rw [variableParts, List.length_append, ih, List.zip_cons_cons, List.map_cons, List.sum_cons]

theorem foldl_toUint16 {columns : List Column} {size : Nat}
    (h : size + fixedSizes columns ≤ 65535) :
    columns.foldl (fun size column => toUint16 (size + storageSize column)) size =
      size + fixedSizes columns := by
  induction columns generalizing size with
  | nil => rfl
  | cons column columns ih =>
    have hsizes : fixedSizes (column :: columns) = storageSize column + fixedSizes columns := rfl
    rw [List.foldl_cons, toUint16, Nat.mod_eq_of_lt (by omega), ih (by omega), hsizes,
      Nat.add_assoc]

theorem nullBitmapSize_eq (schema : Schema) :
    nullBitmapSize schema.columns.length = (schema.columns.length + 7) / 8 := by
  have hcount := schema.columnsValid.2.1
  exact Nat.mod_eq_of_lt (by omega)

theorem fixedAreaSize_eq {columns : List Column} (h : fixedSizes columns < 2 ^ 16) :
    fixedAreaSize columns = fixedSizes columns :=
  (foldl_toUint16 (by omega)).trans (Nat.zero_add _)

/-- The record of a row that matches the columns, if the fixed area fits 16 bits. -/
def recordOf (schema : Schema) (row : Row) : Bytes :=
  bitmapAfter 0 row (List.replicate (nullBitmapSize schema.columns.length) 0) ++
    (fixedParts (nullBitmapSize schema.columns.length + fixedSizes schema.columns) schema.columns
        row ++
      variableParts schema.columns row)

theorem length_eq_of_rowMatches {columns : List Column} {row : Row} (hm : RowMatches columns row) :
    row.length = columns.length := by
  induction hm with
  | nil => rfl
  | cons _ _ ih => rw [List.length_cons, List.length_cons, ih]

/-- The record of an accepted row. -/
theorem serialize_eq_some {schema : Schema} {row : Row} {record : Bytes}
    (h : serialize schema row = some record) (hfixed : fixedSizes schema.columns < 2 ^ 16) :
    RowMatches schema.columns (row.take schema.columns.length) ∧
      record = bitmapAfter 0 (row.take schema.columns.length)
          (List.replicate (nullBitmapSize schema.columns.length) 0) ++
        (fixedParts (nullBitmapSize schema.columns.length + fixedSizes schema.columns)
            schema.columns row ++
          variableParts schema.columns row) := by
  rw [serialize] at h
  split at h
  · cases h
  · have hm := rowMatches_of_serializeColumns h
    have hbytes := @serializeColumns_eq schema.columns row 0
      (List.replicate (nullBitmapSize schema.columns.length) 0) [] [] schema.columnsValid.2.2.1 hm
      (by rw [List.length_replicate, nullBitmapSize_eq]; omega)
    simp only [List.append_nil, List.nil_append, List.length_replicate, List.length_nil,
      Nat.add_zero, List.replicate_append_replicate] at hbytes
    rw [fixedAreaSize_eq hfixed, hbytes] at h
    exact ⟨hm, (Option.some.inj h).symm⟩

theorem serialize_of_rowMatches {schema : Schema} {row : Row} (hm : RowMatches schema.columns row)
    (hfixed : fixedSizes schema.columns < 2 ^ 16) :
    serialize schema row = some (recordOf schema row) := by
  have hcount := schema.columnsValid.2.1
  have hlength := length_eq_of_rowMatches hm
  have hall : row.take schema.columns.length = row := by rw [← hlength, List.take_length]
  have hbytes := @serializeColumns_eq schema.columns row 0
    (List.replicate (nullBitmapSize schema.columns.length) 0) [] [] schema.columnsValid.2.2.1
    (by rw [hall]; exact hm) (by rw [List.length_replicate, nullBitmapSize_eq]; omega)
  simp only [List.append_nil, List.nil_append, List.length_replicate, List.length_nil,
    Nat.add_zero, List.replicate_append_replicate, hall] at hbytes
  rw [serialize, if_neg (by rw [hlength, toUint16, Nat.mod_eq_of_lt (by omega), not_not]),
    fixedAreaSize_eq hfixed]
  exact hbytes

theorem length_recordOf {schema : Schema} {row : Row} (hm : RowMatches schema.columns row) :
    (recordOf schema row).length =
      nullBitmapSize schema.columns.length + (fixedSizes schema.columns +
        (variableParts schema.columns row).length) := by
  rw [recordOf, List.length_append, List.length_append, length_bitmapAfter, List.length_replicate,
    length_fixedParts schema.columnsValid.2.2.1 hm]

/-- In a record that fits 16 bits all texts are found. -/
theorem textsAt_recordOf {schema : Schema} {row : Row} (hm : RowMatches schema.columns row)
    (hsize : (recordOf schema row).length ≤ 65535) :
    TextsAt (recordOf schema row)
      (nullBitmapSize schema.columns.length + fixedSizes schema.columns) schema.columns row := by
  have hfront : (bitmapAfter 0 row (List.replicate (nullBitmapSize schema.columns.length) 0) ++
      fixedParts (nullBitmapSize schema.columns.length + fixedSizes schema.columns) schema.columns
        row).length = nullBitmapSize schema.columns.length + fixedSizes schema.columns := by
    rw [List.length_append, length_bitmapAfter, List.length_replicate,
      length_fixedParts schema.columnsValid.2.2.1 hm]
  rw [length_recordOf hm] at hsize
  have hat := @textsAt_append _ [] schema.columns row
    (by rw [List.length_append, hfront, List.append_nil]; omega)
  rw [hfront, List.append_nil, List.append_assoc] at hat
  exact hat

/-- The record of a row is read back exactly if no TIME stops the reader and the texts are found. -/
theorem deserialize_recordOf_iff {schema : Schema} {row : Row}
    (hm : RowMatches schema.columns row) (hfixed : fixedSizes schema.columns < 2 ^ 16)
    (hvalues : ∀ v ∈ row, v.Representable)
    (hends : ∀ text, .string text ∈ row → text.getLast? ≠ some 0) :
    deserialize schema (recordOf schema row) = some row ↔
      (∀ v ∈ row, v.timeData < 86400) ∧
        TextsAt (recordOf schema row)
          (nullBitmapSize schema.columns.length + fixedSizes schema.columns) schema.columns row := by
  have hvalid := schema.columnsValid.2.2.1
  have hall := length_eq_of_rowMatches hm
  have hbitmap : (bitmapAfter 0 row
      (List.replicate (nullBitmapSize schema.columns.length) 0)).length =
      nullBitmapSize schema.columns.length := by
    rw [length_bitmapAfter, List.length_replicate]
  have hbytes := length_recordOf hm
  have hbits := nullBitmapSize_eq schema
  have hnull : ∀ (j : Nat) (hj : j < row.length),
      nullBitIsSet (recordOf schema row) (0 + j) = row[j].isNull := by
    intro j hj
    rw [recordOf, nullBitIsSet_append (by omega)]
    exact nullBitIsSet_bitmapAfter_getElem (by rw [List.length_replicate]; omega)
      (fun j _ => nullBitIsSet_zeros _ j) j hj
  have hcolumns := @deserializeColumns_eq_some_iff schema.columns row 0 (recordOf schema row)
    (bitmapAfter 0 row (List.replicate (nullBitmapSize schema.columns.length) 0))
    (variableParts schema.columns row)
    (nullBitmapSize schema.columns.length + fixedSizes schema.columns) hvalid hm hvalues hends
    hnull rfl (by omega)
  rw [hbitmap] at hcolumns
  rw [deserialize, fixedAreaSize_eq hfixed, if_neg (by omega), if_neg (by omega), hcolumns]

/--
A row that is taken comes back as it was if it has no more values than columns
and no TIME of a day's length or more, and only then.
-/
theorem deserialize_serialize_iff {schema : Schema} {row : Row} {record : Bytes}
    (h : serialize schema row = some record) (hvalues : ∀ v ∈ row, v.Representable)
    (hends : ∀ text, .string text ∈ row → text.getLast? ≠ some 0)
    (hsize : encodedSize schema.columns row ≤ 65535) :
    deserialize schema record = some row ↔
      row.length < 2 ^ 16 ∧ ∀ v ∈ row, v.timeData < 86400 := by
  rw [encodedSize, ← length_variableParts] at hsize
  obtain ⟨hm, hrecord⟩ := serialize_eq_some h (by omega)
  have hcount := schema.columnsValid.2.1
  have hsame : toUint16 row.length = schema.columns.length := by
    by_contra hne
    rw [serialize, if_pos hne] at h
    cases h
  rcases lt_or_ge row.length (2 ^ 16) with hlength | hlength
  · have hall : row.length = schema.columns.length := by
      rw [← hsame, toUint16, Nat.mod_eq_of_lt hlength]
    rw [← hall, List.take_length] at hm hrecord
    rw [hall] at hrecord
    have hwhole : record = recordOf schema row := hrecord
    have htexts := textsAt_recordOf hm (by
      have hbits := nullBitmapSize_eq schema
      rw [length_recordOf hm]
      omega)
    rw [hwhole, deserialize_recordOf_iff hm (by omega) hvalues hends]
    exact ⟨fun hdays => ⟨hlength, hdays.1⟩, fun hdays => ⟨hdays.2, htexts⟩⟩
  · -- as many values are never read
    have hne : deserialize schema record ≠ some row := by
      intro hread
      rw [deserialize] at hread
      split at hread
      · cases hread
      · split at hread
        · cases hread
        · have hread := length_of_deserializeColumns hread
          omega
    exact ⟨fun h => absurd h hne, fun h => absurd h.1 (by omega)⟩

/-- A table of a nullable VARSTRING column and a TIME column. -/
def alarmsSchema : Schema where
  tableName := "alarms"
  columns :=
    [{ name := "label", type := .varstring, nullable := true, maxSize := 16, precision := 0,
       scale := 0 },
     { name := "at", type := .time, nullable := false, maxSize := 4, precision := 0, scale := 0 }]
  constraints := []
  indexes := []
  storageMode := .disk
  nameValid := by decide
  columnsValid := by decide
  constraintsValid := by decide
  indexesValid := by decide

theorem deserialize_serialize_noon :
    (serialize alarmsSchema [.varstring [110, 111, 111, 110], .time 43200]).isSome = true ∧
      ∀ record,
        serialize alarmsSchema [.varstring [110, 111, 111, 110], .time 43200] = some record →
        deserialize alarmsSchema record = some [.varstring [110, 111, 111, 110], .time 43200] := by
  refine ⟨by decide, ?_⟩
  intro record h
  refine (deserialize_serialize_iff h ?_ ?_ (by decide)).mpr ⟨by decide, by decide⟩
  · simp [Value.Representable]
  · intro text htext
    simp at htext

/-- The end of the day is accepted as a TIME and not read back. -/
theorem serialize_endOfDay :
    ¬ ∀ (schema : Schema) (row : Row) (record : Bytes), serialize schema row = some record →
      (∀ v ∈ row, v.Representable) →
      (∀ text, Value.string text ∈ row → text.getLast? ≠ some 0) →
      encodedSize schema.columns row ≤ 65535 → deserialize schema record = some row := by
  intro h
  have hwritten : serialize alarmsSchema [.null, .time 86400] =
      some [1, 0, 0, 0, 0, 128, 81, 1, 0] := by decide
  have hread : deserialize alarmsSchema [1, 0, 0, 0, 0, 128, 81, 1, 0] = none := by decide
  have hback := h _ _ _ hwritten (by simp [Value.Representable]) (by simp) (by decide)
  rw [hread] at hback
  cases hback

end RecordSerializer

end ScratchDb
