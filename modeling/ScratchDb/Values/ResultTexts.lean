import Mathlib.Algebra.Order.Ring.Int
import ScratchDb.Indexes.KeyOrder
import ScratchDb.Values.DateTexts
import ScratchDb.Values.NumberTexts

/-!
# What a result keeps of a value

Conditions on the rows of a result work on values read back from their texts,
with a column that knows the type alone. A NULL of a string type becomes the
string `NULL`; numbers and dates for which the column or the text has no room
become NULL; and a DATETIME that was before 1970 moves to the next day unless
it was a midnight.
-/

namespace ScratchDb

namespace Select

open ValueParser

/-! ## Texts of values -/

theorem bytesOf_textOf (bytes : Bytes) : bytesOf (textOf bytes) = bytes := by
  rw [bytesOf, textOf, List.map_map]
  conv_rhs => rw [← List.map_id bytes]
  refine List.map_congr_left fun b _ => ?_
  have hbyte : ∀ n : Fin 256, UInt8.ofNat (Char.ofNat n).toNat = UInt8.ofNat n := by
    decide +kernel
  exact (hbyte ⟨b.toNat, b.toNat_lt⟩).trans UInt8.ofNat_toNat

theorem length_textOf (bytes : Bytes) : (textOf bytes).length = bytes.length := List.length_map _

theorem trim_of_ends {text : List Char} (hhead : ∀ c ∈ text.head?, isSpace c = false)
    (hlast : ∀ c ∈ text.getLast?, isSpace c = false) : trim text = text := by
  have hdrop : text.dropWhile isSpace = text := by
    cases text with
    | nil => rfl
    | cons c rest => exact List.dropWhile_cons_of_neg (by simp [hhead c rfl])
  rw [trim, hdrop, List.rdropWhile_eq_self_iff]
  intro hne
  simp [hlast _ (List.getLast?_eq_some_getLast hne)]

theorem trim_of_numberChars {text : List Char} (h : ∀ c ∈ text, IsNumberChar c) :
    trim text = text :=
  trim_of_ends (fun c hc => isSpace_of_isNumberChar (h c (List.mem_of_head? hc)))
    fun c hc => isSpace_of_isNumberChar (h c (List.mem_of_getLast? hc))

theorem numberChars_ne_null {text : List Char} (h : ∀ c ∈ text, IsNumberChar c) :
    text ≠ "NULL".toList := by
  intro heq
  have hchar := h 'N' (by rw [heq]; decide)
  rcases hchar with hdigit | hsign | hpoint
  · exact absurd hdigit (by decide)
  · exact absurd hsign (by decide)
  · exact absurd hpoint (by decide)

theorem trim_quoted (text : List Char) :
    trim ('\'' :: (text ++ ['\''])) = '\'' :: (text ++ ['\'']) := by
  refine trim_of_ends (fun c hc => ?_) fun c hc => ?_
  · rw [← Option.some.inj hc]
    decide
  · rw [← List.cons_append, List.getLast?_concat] at hc
    rw [← Option.some.inj hc]
    decide

/-- Between the quotes stands what `parse_value_with_error` reads. -/
theorem parseCleaned_quoted {column : Column} (h : isQuotedType column.type = true)
    (text : List Char) :
    parseCleaned column ('\'' :: (text ++ ['\''])) = parseQuoted column text := by
  have hnull : '\'' :: (text ++ ['\'']) ≠ "NULL".toList := fun h =>
    absurd (List.head_eq_of_cons_eq h) (by decide)
  have hends : ¬ (('\'' :: (text ++ ['\''])).length < 2 ∨
      ('\'' :: (text ++ ['\''])).head? ≠ some '\'' ∨
      ('\'' :: (text ++ ['\''])).getLast? ≠ some '\'') := by
    rw [← List.cons_append, List.getLast?_concat]
    simp
  have hinner : (('\'' :: (text ++ ['\''])).drop 1).take
      (('\'' :: (text ++ ['\''])).length - 2) = text := by
    simp
  have hint : column.type ≠ .integer := fun ht => by
    rw [ht] at h
    exact absurd h (by decide)
  have hnumber : column.type ≠ .number := fun ht => by
    rw [ht] at h
    exact absurd h (by decide)
  rw [parseCleaned, if_neg hnull, if_neg hint, if_neg hnumber, if_pos h, if_neg hends, hinner]

/-! ## Reading back -/

/-- The value of a stored column read back from its text in a result. -/
def readBack (numbers : LongDouble) (column : Column) (v : Value) : Value :=
  valueFromResultText (sourceTexts numbers) ⟨column.name, Column.typeToString column.type⟩
    ((sourceTexts numbers).formatValue column v)

/-- The column that reads the text. -/
def readingColumn (column : Column) : Column :=
  columnFromResultColumn ⟨column.name, Column.typeToString column.type⟩

/-- A failure is read as NULL. -/
def valueOrNull : Except String Value → Value
  | .ok value => value
  | .error _ => .null

section Reading

variable {numbers : LongDouble} {column : Column} {v : Value}

/-- The text of a number is read as it is. -/
theorem readBack_numeric (htype : column.type = .integer ∨ column.type = .number) :
    readBack numbers column v =
      valueOrNull (parseCleaned (readingColumn column)
        (trim (ValueParser.formatValue column v).toList)) := by
  have hnumeric : isNumeric ⟨column.name, Column.typeToString column.type⟩ = true := by
    rw [isNumeric]
    rcases htype with h | h <;> rw [h] <;> rfl
  rw [readBack, valueFromResultText, quoteScalarIfNeeded, if_pos hnumeric]
  simp only [sourceTexts, parseValueWithError]
  rw [readingColumn]
  cases parseCleaned (columnFromResultColumn ⟨column.name, Column.typeToString column.type⟩)
    (trim (ValueParser.formatValue column v).toList) <;> rfl

/-- The text of another value is read as what stands between the quotes. -/
theorem readBack_quoted (hquoted : isQuotedType (readingColumn column).type = true)
    (hnumeric : isNumeric ⟨column.name, Column.typeToString column.type⟩ = false) :
    readBack numbers column v =
      valueOrNull (parseQuoted (readingColumn column)
        (ValueParser.formatValue column v).toList) := by
  set text := (ValueParser.formatValue column v).toList with htext
  have hquote : ("'" ++ ValueParser.formatValue column v ++ "'").toList =
      '\'' :: (text ++ ['\'']) := by
    rw [String.toList_append, String.toList_append]
    rfl
  rw [readBack, valueFromResultText, quoteScalarIfNeeded, if_neg (by simp [hnumeric])]
  simp only [sourceTexts, parseValueWithError]
  rw [readingColumn] at hquoted ⊢
  rw [hquote, trim_quoted, parseCleaned_quoted hquoted]
  cases parseQuoted (columnFromResultColumn ⟨column.name, Column.typeToString column.type⟩)
    text <;> rfl

end Reading

theorem readingColumn_eq (column : Column) :
    readingColumn column =
      match column.type with
      | .integer => ⟨column.name, .integer, true, 8, 0, 0⟩
      | .number => ⟨column.name, .number, true, 8, 18, 6⟩
      | .character => ⟨column.name, .character, true, 1, 0, 0⟩
      | .date => ⟨column.name, .date, true, 4, 0, 0⟩
      | .time => ⟨column.name, .time, true, 4, 0, 0⟩
      | .datetime => ⟨column.name, .datetime, true, 8, 0, 0⟩
      | .text => ⟨column.name, .text, true, 2048, 0, 0⟩
      | _ => ⟨column.name, .varstring, true, 1024, 0, 0⟩ := by
  rw [readingColumn, columnFromResultColumn, Column.typeFromString_typeToString]
  cases column.type <;> rfl

theorem parseQuoted_varstring {column : Column} {text : Bytes} (ht : column.type = .varstring)
    (hsize : text.length ≤ column.maxSize) :
    parseQuoted column (textOf text) = .ok (.varstring text) := by
  have hm : (Value.varstring text).matchesColumn column = true := by
    simp [Value.matchesColumn, Value.type, ht, hsize]
  simp only [parseQuoted, ht, bytesOf_textOf, hm, if_true]

theorem parseQuoted_text {column : Column} {text : Bytes} (ht : column.type = .text)
    (hsize : text.length ≤ column.maxSize) :
    parseQuoted column (textOf text) = .ok (.text text) := by
  have hm : (Value.text text).matchesColumn column = true := by
    simp [Value.matchesColumn, Value.type, ht, hsize]
  simp only [parseQuoted, ht, bytesOf_textOf, hm, if_true]

/-- The value that comes back. -/
def reading (column : Column) : Value → Value
  | .null =>
    match column.type with
    | .string | .varstring => .varstring (bytesOf "NULL".toList)
    | .text => .text (bytesOf "NULL".toList)
    | _ => .null
  | .integer n => .integer n
  | .number n =>
    if column.scale ≤ 6 ∧ n.natAbs / 10 ^ column.scale < 10 ^ 12 then
      .number (n * 10 ^ (6 - column.scale))
    else .null
  | .character text => .character text
  | .string text => .varstring text
  | .varstring text => .varstring text
  | .text text => .text text
  | .date days => if Date.HasFourDigits days then .date days else .null
  | .time seconds => if seconds < 86400 then .time seconds else .null
  | .datetime seconds =>
    if Date.HasFourDigits (DateTime.printedDay seconds) then
      .datetime (DateTime.printedDay seconds * 86400 + seconds % 86400)
    else .null

section ReadBack

variable {numbers : LongDouble} {column : Column} {v : Value}

theorem readBack_eq (hvalid : column.isValid = true) (hm : v.matchesColumn column = true)
    (hv : v.Representable) : readBack numbers column v = reading column v := by
  have hcolumn := readingColumn_eq column
  cases v with
  | null =>
    have htext : (ValueParser.formatValue column .null).toList = "NULL".toList :=
      String.toList_ofList
    cases ht : column.type with
    | nullType =>
      rw [Column.isValid, ht] at hvalid
      simp at hvalid
    | integer | number =>
      have htrim : trim "NULL".toList = "NULL".toList := by decide
      simp only [ht] at hcolumn
      rw [readBack_numeric (by rw [ht]; simp), htext, htrim, hcolumn, parseCleaned, if_pos rfl,
        reading, ht]
      rfl
    | character | string | varstring | date | time | datetime | text =>
      simp only [ht] at hcolumn
      rw [readBack_quoted (by rw [hcolumn]; rfl) (by rw [ht]; rfl), htext, hcolumn, reading, ht]
      rfl
  | integer n =>
    have ht : column.type = .integer := (Value.type_eq_of_matchesColumn rfl hm).symm
    simp only [Value.Representable] at hv
    have htext : (ValueParser.formatValue column (.integer n)).toList = signedDecimal n :=
      String.toList_ofList
    have hchars : ∀ c ∈ signedDecimal n, IsNumberChar c := fun c => isNumberChar_signedDecimal
    simp only [ht] at hcolumn
    rw [readBack_numeric (.inl ht), htext, trim_of_numberChars hchars, hcolumn, parseCleaned,
      if_neg (numberChars_ne_null hchars), if_pos rfl, parseInteger_signedDecimal hv.1 hv.2]
    rfl
  | number n =>
    have ht : column.type = .number := (Value.type_eq_of_matchesColumn rfl hm).symm
    have htext : (ValueParser.formatValue column (.number n)).toList =
        formatNumber n column.scale := String.toList_ofList
    have hchars : ∀ c ∈ formatNumber n column.scale, IsNumberChar c := fun c =>
      isNumberChar_formatNumber
    simp only [ht] at hcolumn
    rw [readBack_numeric (.inr ht), htext, trim_of_numberChars hchars, hcolumn, parseCleaned,
      if_neg (numberChars_ne_null hchars), if_neg (fun h => by cases h), if_pos rfl,
      parseNumber_formatNumber, reading]
    by_cases hfits : column.scale ≤ 6 ∧ n.natAbs / 10 ^ column.scale < 10 ^ 12
    · rw [if_pos hfits, if_pos hfits]
      rfl
    · rw [if_neg hfits, if_neg hfits]
      rfl
  | character text =>
    have ht : column.type = .character := (Value.type_eq_of_matchesColumn rfl hm).symm
    simp only [Value.matchesColumn, Bool.and_eq_true, decide_eq_true_eq] at hm
    have htext : (ValueParser.formatValue column (.character text)).toList = textOf text :=
      String.toList_ofList
    simp only [ht] at hcolumn
    rw [readBack_quoted (by rw [hcolumn]; rfl) (by rw [ht]; rfl), htext, hcolumn, parseQuoted,
      if_neg (by rw [length_textOf]; omega), bytesOf_textOf]
    rfl
  | string text =>
    have ht : column.type = .string := (Value.type_eq_of_matchesColumn rfl hm).symm
    simp only [Value.matchesColumn, Bool.and_eq_true, decide_eq_true_eq] at hm
    have htext : (ValueParser.formatValue column (.string text)).toList = textOf text :=
      String.toList_ofList
    have hsize : text.length ≤ 1024 := by
      rw [Column.isValid, ht] at hvalid
      simp only [Bool.and_eq_true, decide_eq_true_eq] at hvalid
      omega
    simp only [ht] at hcolumn
    rw [readBack_quoted (by rw [hcolumn]; rfl) (by rw [ht]; rfl), htext, hcolumn,
      parseQuoted_varstring rfl hsize]
    rfl
  | varstring text =>
    have ht : column.type = .varstring := (Value.type_eq_of_matchesColumn rfl hm).symm
    simp only [Value.matchesColumn, Bool.and_eq_true, decide_eq_true_eq] at hm
    have htext : (ValueParser.formatValue column (.varstring text)).toList = textOf text :=
      String.toList_ofList
    have hsize : text.length ≤ 1024 := by
      rw [Column.isValid, ht] at hvalid
      simp only [Bool.and_eq_true, decide_eq_true_eq] at hvalid
      omega
    simp only [ht] at hcolumn
    rw [readBack_quoted (by rw [hcolumn]; rfl) (by rw [ht]; rfl), htext, hcolumn,
      parseQuoted_varstring rfl hsize]
    rfl
  | text text =>
    have ht : column.type = .text := (Value.type_eq_of_matchesColumn rfl hm).symm
    simp only [Value.matchesColumn, Bool.and_eq_true, decide_eq_true_eq] at hm
    have htext : (ValueParser.formatValue column (.text text)).toList = textOf text :=
      String.toList_ofList
    have hsize : text.length ≤ 2048 := by
      rw [Column.isValid, ht] at hvalid
      simp only [Bool.and_eq_true, decide_eq_true_eq] at hvalid
      omega
    simp only [ht] at hcolumn
    rw [readBack_quoted (by rw [hcolumn]; rfl) (by rw [ht]; rfl), htext, hcolumn,
      parseQuoted_text rfl hsize]
    rfl
  | date days =>
    have ht : column.type = .date := (Value.type_eq_of_matchesColumn rfl hm).symm
    have htext : (ValueParser.formatValue column (.date days)).toList = Date.toString days :=
      String.toList_ofList
    simp only [ht] at hcolumn
    rw [readBack_quoted (by rw [hcolumn]; rfl) (by rw [ht]; rfl), htext, hcolumn, parseQuoted,
      Date.fromString_toString, reading]
    by_cases hfits : Date.HasFourDigits days
    · rw [if_pos hfits, if_pos hfits]
      rfl
    · rw [if_neg hfits, if_neg hfits]
      rfl
  | time seconds =>
    have ht : column.type = .time := (Value.type_eq_of_matchesColumn rfl hm).symm
    have htext : (ValueParser.formatValue column (.time seconds)).toList = Time.toString seconds :=
      String.toList_ofList
    simp only [ht] at hcolumn
    rw [readBack_quoted (by rw [hcolumn]; rfl) (by rw [ht]; rfl), htext, hcolumn, parseQuoted,
      Time.fromString_toString, reading]
    by_cases hfits : seconds < 86400
    · rw [if_pos hfits, if_pos hfits]
      rfl
    · rw [if_neg hfits, if_neg hfits]
      rfl
  | datetime seconds =>
    have ht : column.type = .datetime := (Value.type_eq_of_matchesColumn rfl hm).symm
    have htext : (ValueParser.formatValue column (.datetime seconds)).toList =
        DateTime.toString seconds := String.toList_ofList
    simp only [ht] at hcolumn
    rw [readBack_quoted (by rw [hcolumn]; rfl) (by rw [ht]; rfl), htext, hcolumn, parseQuoted,
      DateTime.fromString_toString, reading]
    by_cases hfits : Date.HasFourDigits (DateTime.printedDay seconds)
    · rw [if_pos hfits, if_pos hfits]
      rfl
    · rw [if_neg hfits, if_neg hfits]
      rfl

end ReadBack

/-! ## What is kept -/

/-- NULL stays NULL, nothing else becomes NULL, and the order is the one of the stored values. -/
def KeepsMeaning (numbers : LongDouble) (column : Column) (v w : Value) : Prop :=
  (readBack numbers column v).isNull = v.isNull ∧ (readBack numbers column w).isNull = w.isNull ∧
    Value.compareValues (readBack numbers column v) (readBack numbers column w) =
      Value.compareValues v w

/--
The values for which the text and the column that reads it have room: no NULL
of a string type, 12 digits before and 6 behind the point, a year of four
digits, a time within the day.
-/
def HasRoom (column : Column) : Value → Prop
  | .null => column.type ≠ .string ∧ column.type ≠ .varstring ∧ column.type ≠ .text
  | .number n => column.scale ≤ 6 ∧ n.natAbs < 10 ^ (12 + column.scale)
  | .date days => Date.HasFourDigits days
  | .time seconds => seconds < 86400
  | .datetime seconds => Date.HasFourDigits ((seconds.tdiv 86400).bmod (2 ^ 32))
  | _ => True

/--
By how much the text of a DATETIME is off: a day before 1970 unless it is a
midnight, and the days that do not fit 32 bits.
-/
def misprint (seconds : Int) : Int :=
  (if seconds < 0 ∧ seconds % 86400 ≠ 0 then 86400 else 0) -
    86400 * (2 ^ 32 * ((seconds.tdiv 86400 + 2 ^ 31) / 2 ^ 32))

/-- Two DATETIMEs that lie further apart than their texts are off. -/
def FarEnough (s t : Int) : Prop :=
  (s < t → misprint s - misprint t < t - s) ∧ (t < s → misprint t - misprint s < s - t)

def KeepOrder : Value → Value → Prop
  | .datetime s, .datetime t => FarEnough s t
  | _, _ => True

theorem printedDay_eq (seconds : Int) :
    DateTime.printedDay seconds * 86400 + seconds % 86400 = seconds + misprint seconds := by
  have hcast : ∀ days : Int, days.bmod (2 ^ 32) = days - 2 ^ 32 * ((days + 2 ^ 31) / 2 ^ 32) := by
    intro days
    rw [Int.bmod_def]
    split <;> omega
  have hround : seconds.tdiv 86400 * 86400 + seconds % 86400 =
      seconds + if seconds < 0 ∧ seconds % 86400 ≠ 0 then 86400 else 0 := by
    rw [Int.tdiv_eq_ediv]
    have hsign : Int.sign 86400 = 1 := rfl
    rw [hsign]
    split <;> split <;> omega
  rw [DateTime.printedDay, hcast, misprint]
  omega

theorem isNull_ite {p : Prop} [Decidable p] {v : Value} (hv : v.isNull = false) :
    (if p then v else .null).isNull = false ↔ p := by
  by_cases h : p
  · rw [if_pos h]
    exact iff_of_true hv h
  · rw [if_neg h]
    exact iff_of_false (fun hnull => by cases hnull) h

/-- A value is read back as NULL or as no NULL, as it was, if there is room for it. -/
theorem isNull_reading_iff (column : Column) (v : Value) :
    (reading column v).isNull = v.isNull ↔ HasRoom column v := by
  cases v with
  | null =>
    rw [reading, HasRoom]
    cases column.type <;> simp [Value.isNull]
  | number n =>
    have hdiv : n.natAbs / 10 ^ column.scale < 10 ^ 12 ↔ n.natAbs < 10 ^ (12 + column.scale) := by
      rw [Nat.div_lt_iff_lt_mul (Nat.pow_pos (by decide)), pow_add]
    exact (isNull_ite rfl).trans (and_congr_right fun _ => hdiv)
  | date days => exact isNull_ite rfl
  | time seconds => exact isNull_ite rfl
  | datetime seconds => exact isNull_ite rfl
  | integer n | character s | string s | varstring s | text s => exact iff_of_true rfl trivial

theorem compareValues_of_isNull {v w v' w' : Value} (hv : v'.isNull = v.isNull)
    (hw : w'.isNull = w.isNull) (hnull : v.isNull = true ∨ w.isNull = true) :
    Value.compareValues v' w' = Value.compareValues v w := by
  have hone : (v.isNull || w.isNull) = true := by simpa using hnull
  rw [Value.compareValues, Value.compareValues, hv, hw, if_pos hone, if_pos hone]

theorem compareData_datetime_iff (s t : Int) :
    Value.compareData (s + misprint s) (t + misprint t) = Value.compareData s t ↔
      FarEnough s t := by
  rw [FarEnough]
  rcases lt_trichotomy s t with hlt | rfl | hgt
  · rw [(Value.compareData_of_lt hlt).1, Value.compareData]
    split
    · exact iff_of_false (fun h => by cases h) (by omega)
    · split
      · exact iff_of_true rfl (by omega)
      · exact iff_of_false (fun h => by cases h) (by omega)
  · exact iff_of_true (by simp [Value.compareData]) (by omega)
  · rw [(Value.compareData_of_lt hgt).2, Value.compareData]
    split
    · exact iff_of_false (fun h => by cases h) (by omega)
    · split
      · exact iff_of_false (fun h => by cases h) (by omega)
      · exact iff_of_true rfl (by omega)

/-- Values that are read back compare as they did, if DATETIMEs lie far enough apart. -/
theorem compareValues_reading_iff {column : Column} {v w : Value} (ht : v.type = w.type)
    (hnull : v.isNull = false) (hv : HasRoom column v) (hw : HasRoom column w) :
    Value.compareValues (reading column v) (reading column w) = Value.compareValues v w ↔
      KeepOrder v w := by
  cases v <;> cases w <;> cases ht
  case null.null => cases hnull
  case number.number n m =>
    have hpos : (0 : Int) < 10 ^ (6 - column.scale) := pow_pos (by decide) _
    have hread : ∀ k : Int, HasRoom column (.number k) →
        reading column (.number k) = .number (k * 10 ^ (6 - column.scale)) := by
      intro k hk
      refine if_pos ⟨hk.1, ?_⟩
      rw [Nat.div_lt_iff_lt_mul (Nat.pow_pos (by decide)), ← pow_add]
      exact hk.2
    rw [hread n hv, hread m hw]
    exact iff_of_true (Value.compareData_congr (mul_left_inj' hpos.ne') (mul_lt_mul_iff_left₀ hpos))
      trivial
  case datetime.datetime s t =>
    have hread : ∀ k : Int, HasRoom column (.datetime k) →
        reading column (.datetime k) = .datetime (k + misprint k) := by
      intro k hk
      rw [← printedDay_eq]
      exact if_pos hk
    rw [hread s hv, hread t hw]
    exact compareData_datetime_iff s t
  case date.date s t =>
    have hread : ∀ k : Int, HasRoom column (.date k) → reading column (.date k) = .date k :=
      fun k hk => if_pos hk
    rw [hread s hv, hread t hw]
    exact iff_of_true rfl trivial
  case time.time s t =>
    have hread : ∀ k : Nat, HasRoom column (.time k) → reading column (.time k) = .time k :=
      fun k hk => if_pos hk
    rw [hread s hv, hread t hw]
    exact iff_of_true rfl trivial
  all_goals exact iff_of_true rfl trivial

/-- The pairs of values whose meaning the texts of a result keep. -/
theorem keepsMeaning_iff {numbers : LongDouble} {column : Column} {v w : Value}
    (hvalid : column.isValid = true) (hmv : v.matchesColumn column = true)
    (hmw : w.matchesColumn column = true) (hv : v.Representable) (hw : w.Representable) :
    KeepsMeaning numbers column v w ↔
      HasRoom column v ∧ HasRoom column w ∧ KeepOrder v w := by
  rw [KeepsMeaning, readBack_eq hvalid hmv hv, readBack_eq hvalid hmw hw, isNull_reading_iff,
    isNull_reading_iff]
  refine and_congr_right fun hroom => and_congr_right fun hroom' => ?_
  by_cases hnull : v.isNull = true ∨ w.isNull = true
  · refine iff_of_true (compareValues_of_isNull ((isNull_reading_iff column v).mpr hroom)
      ((isNull_reading_iff column w).mpr hroom') hnull) ?_
    cases v <;> cases w <;> first | trivial | simp [Value.isNull] at hnull
  · rw [not_or, Bool.not_eq_true, Bool.not_eq_true] at hnull
    have ht : v.type = w.type :=
      (Value.type_eq_of_matchesColumn hnull.1 hmv).trans
        (Value.type_eq_of_matchesColumn hnull.2 hmw).symm
    exact compareValues_reading_iff ht hnull.1 hroom hroom'

theorem keepsMeaning_prices :
    KeepsMeaning integerTexts.numbers ⟨"price", .number, false, 8, 6, 2⟩ (.number 150)
      (.number (-25)) := by
  refine (keepsMeaning_iff (by decide) (by decide) (by decide) ?_ ?_).mpr ⟨?_, ?_, trivial⟩
  · exact ⟨by decide, by decide⟩
  · exact ⟨by decide, by decide⟩
  · exact ⟨by decide, by decide⟩
  · exact ⟨by decide, by decide⟩

/-- A NULL of a VARSTRING column comes back as the string `NULL`. -/
theorem null_label_is_text :
    ¬ ∀ (numbers : LongDouble) (column : Column) (v w : Value), column.isValid = true →
      v.matchesColumn column = true → w.matchesColumn column = true → v.Representable →
      w.Representable → KeepsMeaning numbers column v w := by
  intro h
  have hvalid : Column.isValid ⟨"label", .varstring, true, 16, 0, 0⟩ = true := by decide
  have hrep : Value.null.Representable := trivial
  have hnull := (h integerTexts.numbers _ .null .null hvalid rfl rfl hrep hrep).1
  rw [readBack_eq hvalid rfl hrep] at hnull
  cases hnull

end Select

end ScratchDb
