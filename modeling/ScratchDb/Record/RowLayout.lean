import Mathlib.Data.List.GetD
import ScratchDb.Indexes.IndexKey
import ScratchDb.Record.Serializer

/-!
# The layout of a record

What `serialize` writes, in one piece: the bitmap, the fixed parts of the
values one after another, and their variable parts one after another. The
loop fills in the zeros it starts with.
-/

namespace ScratchDb

namespace RecordSerializer

open LittleEndian

/-! ## Null bits -/

theorem nullMask_ne_zero (i : Nat) : nullMask i ≠ 0 := by
  have h : ∀ n : Fin 8, (1 : UInt8) <<< UInt8.ofNat n ≠ 0 := by decide
  exact h ⟨i % 8, Nat.mod_lt i (by decide)⟩

theorem nullMask_and_of_ne {i j : Nat} (h : i % 8 ≠ j % 8) : nullMask i &&& nullMask j = 0 := by
  have hall : ∀ m n : Fin 8, m ≠ n →
      (1 : UInt8) <<< UInt8.ofNat m &&& (1 : UInt8) <<< UInt8.ofNat n = 0 := by decide
  exact hall ⟨i % 8, Nat.mod_lt i (by decide)⟩ ⟨j % 8, Nat.mod_lt j (by decide)⟩
    fun heq => h (Fin.mk.inj heq)

theorem nullBit_or (b : UInt8) (i j : Nat) :
    (b ||| nullMask i) &&& nullMask j ≠ 0 ↔ i % 8 = j % 8 ∨ b &&& nullMask j ≠ 0 := by
  have hdistrib : (b ||| nullMask i) &&& nullMask j =
      (b &&& nullMask j) ||| (nullMask i &&& nullMask j) :=
    UInt8.toBitVec_inj.mp BitVec.and_or_distrib_right
  rw [hdistrib, ne_eq, UInt8.or_eq_zero_iff]
  by_cases h : i % 8 = j % 8
  · have hmask : nullMask i = nullMask j := by rw [nullMask, nullMask, h]
    simp [h, hmask, nullMask_ne_zero]
  · rw [nullMask_and_of_ne h]
    simp [h]

theorem length_setNullBit (record : Bytes) (i : Nat) :
    (setNullBit record i).length = record.length :=
  List.length_set

/-- Setting a bit sets that bit alone. -/
theorem nullBitIsSet_setNullBit {record : Bytes} {i : Nat} (h : i / 8 < record.length) (j : Nat) :
    nullBitIsSet (setNullBit record i) j = true ↔ i = j ∨ nullBitIsSet record j = true := by
  rw [nullBitIsSet, nullBitIsSet, decide_eq_true_eq, decide_eq_true_eq]
  by_cases hbyte : i / 8 = j / 8
  · have hget : (setNullBit record i).getD (j / 8) 0 = record.getD (j / 8) 0 ||| nullMask i := by
      rw [setNullBit, ← hbyte, List.getD_eq_getElem _ _ (by rw [List.length_set]; exact h),
        List.getElem_set_self]
    rw [hget, nullBit_or]
    exact or_congr_left ⟨fun hmod => by omega, fun heq => by rw [heq]⟩
  · have hget : (setNullBit record i).getD (j / 8) 0 = record.getD (j / 8) 0 := by
      rw [setNullBit, List.getD_eq_getElem?_getD, List.getElem?_set_ne hbyte,
        ← List.getD_eq_getElem?_getD]
    rw [hget]
    exact ⟨.inr, fun h => h.resolve_left fun heq => hbyte (by rw [heq])⟩

theorem nullBitIsSet_zeros (n j : Nat) : nullBitIsSet (List.replicate n 0) j = false := by
  rw [nullBitIsSet, decide_eq_false_iff_not, not_not, List.getD_eq_getElem?_getD,
    List.getElem?_replicate]
  split <;> simp

/-- The bitmap after the NULLs of the values from column `i` on. -/
def bitmapAfter : Nat → Row → Bytes → Bytes
  | _, [], bitmap => bitmap
  | i, value :: row, bitmap =>
    bitmapAfter (i + 1) row (if value.isNull then setNullBit bitmap i else bitmap)

theorem length_bitmapAfter (i : Nat) (row : Row) (bitmap : Bytes) :
    (bitmapAfter i row bitmap).length = bitmap.length := by
  induction row generalizing i bitmap with
  | nil => rfl
  | cons value row ih =>
    rw [bitmapAfter, ih]
    split
    · exact length_setNullBit bitmap i
    · rfl

/-- The bits of the columns before are left alone. -/
theorem nullBitIsSet_bitmapAfter {i j : Nat} {row : Row} {bitmap : Bytes} (hj : j < i)
    (hroom : (i + row.length + 7) / 8 ≤ bitmap.length) :
    nullBitIsSet (bitmapAfter i row bitmap) j = nullBitIsSet bitmap j := by
  induction row generalizing i bitmap with
  | nil => rfl
  | cons value row ih =>
    rw [List.length_cons] at hroom
    rw [bitmapAfter, ih (by omega)]
    · split
      · rw [Bool.eq_iff_iff, nullBitIsSet_setNullBit (by omega)]
        exact ⟨fun h => h.resolve_left (by omega), .inr⟩
      · rfl
    · split
      · rw [length_setNullBit]
        omega
      · omega

/-- After the NULLs of all columns the bits tell which values are NULL. -/
theorem nullBitIsSet_bitmapAfter_getElem {i : Nat} {row : Row} {bitmap : Bytes}
    (hroom : (i + row.length + 7) / 8 ≤ bitmap.length)
    (hunset : ∀ j, i ≤ j → nullBitIsSet bitmap j = false) (k : Nat) (hk : k < row.length) :
    nullBitIsSet (bitmapAfter i row bitmap) (i + k) = row[k].isNull := by
  induction row generalizing i bitmap k with
  | nil => cases hk
  | cons value row ih =>
    rw [List.length_cons] at hroom hk
    have hlength : (if value.isNull then setNullBit bitmap i else bitmap).length =
        bitmap.length := by
      split
      · exact length_setNullBit bitmap i
      · rfl
    cases k with
    | zero =>
      -- later columns leave the bit alone
      rw [bitmapAfter, nullBitIsSet_bitmapAfter (by omega) (by omega), List.getElem_cons_zero]
      split
      · rename_i hnull
        rw [hnull, nullBitIsSet_setNullBit (by omega)]
        exact .inl rfl
      · rename_i hnull
        rw [Nat.add_zero, hunset i le_rfl, Bool.eq_false_iff.mpr hnull]
    | succ k =>
      have hunset' : ∀ j, i + 1 ≤ j →
          nullBitIsSet (if value.isNull then setNullBit bitmap i else bitmap) j = false := by
        intro j hj
        split
        · rw [Bool.eq_false_iff, ne_eq, nullBitIsSet_setNullBit (by omega), not_or,
            hunset j (by omega)]
          exact ⟨by omega, Bool.false_ne_true⟩
        · exact hunset j (by omega)
      rw [bitmapAfter, show i + (k + 1) = i + 1 + k by omega,
        ih (by omega) hunset' k (by omega), List.getElem_cons_succ]

theorem nullBitIsSet_append {bitmap rest : Bytes} {i : Nat} (h : i / 8 < bitmap.length) :
    nullBitIsSet (bitmap ++ rest) i = nullBitIsSet bitmap i := by
  rw [nullBitIsSet, nullBitIsSet, List.getD_append _ _ _ _ h]

theorem setNullBit_append {bitmap rest : Bytes} {i : Nat} (h : i / 8 < bitmap.length) :
    setNullBit (bitmap ++ rest) i = setNullBit bitmap i ++ rest := by
  rw [setNullBit, setNullBit, List.getD_append _ _ _ _ h, List.set_append_left _ _ h]

/-! ## The parts of a value -/

/-- What stands in the fixed area; `offset` is where the variable part goes. -/
def fixedPart (offset : Nat) (column : Column) (value : Value) : Bytes :=
  if value.isNull then List.replicate (storageSize column) 0
  else
    match column.type with
    | .integer => encodeInt 8 value.integerData
    | .number => encodeInt 8 value.numberData
    | .character => [value.stringData.headD 0]
    | .string => value.stringData ++ List.replicate (column.maxSize - value.stringData.length) 0
    | .date => encodeInt 4 value.dateData
    | .time => encode 4 value.timeData
    | .datetime => encodeInt 8 value.datetimeData
    | .varstring | .text =>
      encode 2 (toUint16 value.stringData.length) ++ encode 2 (toUint16 offset)
    | .nullType => []

def variablePart (column : Column) (value : Value) : Bytes :=
  if isVariableType column.type then value.stringData else []

/-- `offset` is where the variable part of the first value goes. -/
def fixedParts : Nat → List Column → Row → Bytes
  | offset, column :: columns, value :: row =>
    fixedPart offset column value ++
      fixedParts (offset + (variablePart column value).length) columns row
  | _, _, _ => []

def variableParts : List Column → Row → Bytes
  | column :: columns, value :: row => variablePart column value ++ variableParts columns row
  | _, _ => []

/-- The size of the fixed area, unbounded. -/
def fixedSizes (columns : List Column) : Nat := (columns.map storageSize).sum

theorem length_fixedPart {column : Column} {value : Value} (hvalid : column.isValid = true)
    (hm : value.matchesColumn column = true) (offset : Nat) :
    (fixedPart offset column value).length = storageSize column := by
  cases hnull : value.isNull with
  | true => rw [fixedPart, if_pos hnull, List.length_replicate]
  | false =>
    rw [fixedPart, if_neg (by rw [hnull]; exact Bool.false_ne_true)]
    have htype := Value.type_eq_of_matchesColumn hnull hm
    cases ht : column.type with
    | nullType =>
      rw [Column.isValid, ht] at hvalid
      simp at hvalid
    | string =>
      cases value with
      | string s =>
        simp only [Value.matchesColumn, Bool.and_eq_true, decide_eq_true_eq] at hm
        simp only [storageSize, ht, isVariableType, Value.stringData, List.length_append,
          List.length_replicate]
        simp
        omega
      | null => cases hnull
      | _ => cases htype.trans ht
    | _ => simp [storageSize, ht, isVariableType, Column.fixedSize, varPointerSize]

/-- A NULL has no variable part. -/
theorem variablePart_of_isNull {column : Column} {value : Value} (h : value.isNull = true) :
    variablePart column value = [] := by
  cases value with
  | null =>
    rw [variablePart]
    split <;> rfl
  | _ => cases h

/-! ## What the loop writes -/

/-- Writing over a piece of the array. -/
theorem writeAt_append {front piece back bytes : Bytes} (h : bytes.length = piece.length) :
    writeAt (front ++ (piece ++ back)) front.length bytes = front ++ (bytes ++ back) := by
  rw [writeAt, List.take_left, h, List.drop_append, List.drop_of_length_le (by omega),
    Nat.add_sub_cancel_left, List.drop_left, List.nil_append, List.append_assoc]

/-- A value fills its place with its fixed part, and its variable part goes behind everything. -/
theorem writeValue_eq {front back : Bytes} {column : Column} {value : Value}
    (hvalid : column.isValid = true) (hnull : value.isNull = false)
    (hm : value.matchesColumn column = true) :
    writeValue (front ++ (List.replicate (storageSize column) 0 ++ back)) front.length column
        value =
      some (front ++ (fixedPart (front.length + storageSize column + back.length) column value ++
        (back ++ variablePart column value))) := by
  have hpart := length_fixedPart hvalid hm (front.length + storageSize column + back.length)
  have hlength : (List.replicate (storageSize column) (0 : UInt8)).length = storageSize column :=
    List.length_replicate
  have htype := Value.type_eq_of_matchesColumn hnull hm
  rw [fixedPart, if_neg (by rw [hnull]; exact Bool.false_ne_true)] at hpart ⊢
  rw [writeValue]
  cases ht : column.type with
  | nullType =>
    rw [Column.isValid, ht] at hvalid
    simp at hvalid
  | string =>
    -- the text is written alone: the zeros behind it are there
    have hvar : isVariableType column.type = false := by rw [ht]; rfl
    have hsize : storageSize column = column.maxSize := by
      rw [storageSize, hvar, ht]
      rfl
    have htext : value.stringData.length ≤ column.maxSize := by
      cases value with
      | string s =>
        simp only [Value.matchesColumn, Bool.and_eq_true, decide_eq_true_eq] at hm
        exact hm.2
      | null => cases hnull
      | _ => cases htype.trans ht
    have hsplit : List.replicate (storageSize column) (0 : UInt8) =
        List.replicate value.stringData.length 0 ++
          List.replicate (column.maxSize - value.stringData.length) 0 := by
      rw [List.replicate_append_replicate, hsize]
      congr 1
      omega
    have hback : back ++ variablePart column value = back := by
      rw [variablePart, hvar, if_neg Bool.false_ne_true, List.append_nil]
    rw [hback, hsplit]
    simp only [List.append_assoc]
    rw [writeAt_append List.length_replicate.symm]
  | varstring | text =>
    have hvar : isVariableType column.type = true := by rw [ht]; rfl
    have hsize : storageSize column = 4 := by
      rw [storageSize, hvar]
      rfl
    have hsplit : List.replicate (storageSize column) (0 : UInt8) =
        List.replicate 2 0 ++ List.replicate 2 0 := by
      rw [hsize]
      rfl
    have hwritten : variablePart column value = value.stringData := by
      rw [variablePart, hvar, if_pos rfl]
    have hoffset : (front ++ (List.replicate (storageSize column) 0 ++ back)).length =
        front.length + storageSize column + back.length := by
      rw [List.length_append, List.length_append, hlength, Nat.add_assoc]
    have hpos : front.length + 2 =
        (front ++ encode 2 (toUint16 value.stringData.length)).length := by
      rw [List.length_append, length_encode]
    simp only [hoffset]
    rw [hwritten, hsplit, List.append_assoc, writeAt_append (by simp), hpos,
      ← List.append_assoc front, writeAt_append (by simp)]
    simp only [List.append_assoc]
  | integer | number | character | date | time | datetime =>
    rw [ht] at hpart
    have hback : back ++ variablePart column value = back := by
      rw [variablePart, ht]
      exact List.append_nil back
    rw [hback]
    exact congrArg some (writeAt_append (hpart.trans hlength.symm))

/-- `value.matchesColumn column` for each column of the row. -/
def RowMatches (columns : List Column) (row : Row) : Prop :=
  List.Forall₂ (fun column value => value.matchesColumn column = true) columns row

/-- An accepted row has matching values for all columns; further values are not looked at. -/
theorem rowMatches_of_serializeColumns {columns : List Column} {row : Row} {i fixedPos : Nat}
    {out record : Bytes} (h : serializeColumns columns row i fixedPos out = some record) :
    RowMatches columns (row.take columns.length) := by
  induction columns generalizing row i fixedPos out with
  | nil => exact .nil
  | cons column columns ih =>
    cases row with
    | nil => cases h
    | cons value row =>
      rw [serializeColumns] at h
      cases hm : value.matchesColumn column with
      | false =>
        rw [if_pos hm] at h
        cases h
      | true =>
        rw [if_neg (by simp [hm])] at h
        refine .cons hm ?_
        split at h
        · exact ih h
        · obtain ⟨out', -, hrest⟩ := Option.bind_eq_some_iff.mp h
          exact ih hrest

/-- What the loop makes of the zeros of the fixed area that are left. -/
theorem serializeColumns_eq {columns : List Column} {row : Row} {i : Nat}
    {bitmap heads tails : Bytes} (hvalid : ∀ column ∈ columns, column.isValid = true)
    (hm : RowMatches columns (row.take columns.length))
    (hroom : (i + columns.length + 7) / 8 ≤ bitmap.length) :
    serializeColumns columns row i (bitmap ++ heads).length
        (bitmap ++ heads ++ (List.replicate (fixedSizes columns) 0 ++ tails)) =
      some (bitmapAfter i (row.take columns.length) bitmap ++ heads ++
        (fixedParts ((bitmap ++ heads).length + fixedSizes columns + tails.length) columns row ++
          (tails ++ variableParts columns row))) := by
  induction columns generalizing row i bitmap heads tails with
  | nil =>
    rw [serializeColumns]
    simp [bitmapAfter, fixedParts, variableParts, fixedSizes]
  | cons column columns ih =>
    cases row with
    | nil => cases hm
    | cons value row =>
      obtain ⟨hvalue, hrow⟩ := List.forall₂_cons.mp hm
      have hcolumn := hvalid column List.mem_cons_self
      have hcolumns : ∀ c ∈ columns, c.isValid = true := fun c hc =>
        hvalid c (List.mem_cons_of_mem _ hc)
      have hzeros : List.replicate (fixedSizes (column :: columns)) (0 : UInt8) =
          List.replicate (storageSize column) 0 ++ List.replicate (fixedSizes columns) 0 := by
        rw [List.replicate_append_replicate]
        rfl
      have hsizes : fixedSizes (column :: columns) = storageSize column + fixedSizes columns := rfl
      rw [List.length_cons] at hroom
      rw [serializeColumns, if_neg (by simp [hvalue]), hzeros,
        List.append_assoc (List.replicate (storageSize column) 0), List.length_cons,
        List.take_succ_cons, bitmapAfter, fixedParts, variableParts]
      cases hnull : value.isNull with
      | true =>
        have hpart : ∀ offset, fixedPart offset column value =
            List.replicate (storageSize column) 0 := fun offset => by
          rw [fixedPart, if_pos hnull]
        have hbyte : i / 8 < bitmap.length := by omega
        rw [if_pos rfl, if_pos rfl, variablePart_of_isNull hnull, hpart]
        have hstep := @ih row (i + 1) (setNullBit bitmap i)
          (heads ++ List.replicate (storageSize column) 0) tails hcolumns hrow
          (by rw [length_setNullBit]; omega)
        rw [List.append_assoc, setNullBit_append hbyte]
        simp only [List.length_append, length_setNullBit, List.length_replicate, List.append_assoc,
          List.nil_append, List.length_nil, Nat.add_zero, hsizes, ← Nat.add_assoc] at hstep ⊢
        rw [hstep]
      | false =>
        have hlength := length_fixedPart hcolumn hvalue
        rw [if_neg Bool.false_ne_true, if_neg Bool.false_ne_true,
          writeValue_eq hcolumn hnull hvalue, Option.bind_some]
        have hstep := fun offset => @ih row (i + 1) bitmap
          (heads ++ fixedPart offset column value) (tails ++ variablePart column value) hcolumns
          hrow (by omega)
        simp only [List.length_append, hlength, List.append_assoc, hsizes, List.length_replicate,
          ← Nat.add_assoc] at hstep ⊢
        rw [hstep]

end RecordSerializer

end ScratchDb
