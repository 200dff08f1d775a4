import Mathlib.Data.Rat.Cast.Order
import ScratchDb.Select.StarQueries

/-!
# Equal columns in `ON` and in `WHERE`

`ON a.x = b.y` compares the stored integers with `compare_values` of
`src/query/query_executor.cpp`, which knows no scale. `WHERE a.x = b.y` compares
what `value_from_result_text` reads from the texts of the result, and a column of
scale 6 reads the text of a NUMBER as the number it is. The two agree with the
numbers where equal integers stand for equal numbers.
-/

namespace ScratchDb.Select

open ValueParser

/-! ## Numbers -/

/-- The number of a value of an INTEGER or a NUMBER column. -/
def numericValue (column : Column) : Value → Option ℚ
  | .integer n => some n
  | .number n => some (n / 10 ^ column.scale)
  | _ => none

/-- The numbers are equal; so are two NULLs, as `compare_values` has it. -/
def equalNumbers (x y : Column) (v w : Value) : Bool := decide (numericValue x v = numericValue y w)

/-- Two stored integers stand for one number at the scales of their columns. -/
def SameNumber (x y : Column) (n m : Int) : Prop := n * 10 ^ y.scale = m * 10 ^ x.scale

/-- Both texts are read, or it is not one of equal numbers that is read, nor none of different
ones. -/
def ReadAlike (x y : Column) (n m : Int) : Prop :=
  HasRoom x (.number n) ∧ HasRoom y (.number m) ∨
    ((HasRoom x (.number n) ↔ HasRoom y (.number m)) ↔ SameNumber x y n m)

/-- The values for which both places find out whether the numbers are equal: equal integers are
equal numbers, and the texts are read. -/
def EqualEitherWay (x y : Column) : Value → Value → Prop
  | .number n, .number m => (n = m ↔ SameNumber x y n m) ∧ ReadAlike x y n m
  | .number n, .null => HasRoom x (.number n)
  | .null, .number m => HasRoom y (.number m)
  | _, _ => True

section Values

variable {x y : Column} {v w : Value}

/-- The values of an INTEGER or a NUMBER column. -/
inductive IsNumeric (column : Column) : Value → Prop
  | null : IsNumeric column .null
  | integer (n : Int) (htype : column.type = .integer) (hlow : -2 ^ 63 ≤ n) (hhigh : n < 2 ^ 63) :
    IsNumeric column (.integer n)
  | number (n : Int) (htype : column.type = .number) (hlow : -2 ^ 63 ≤ n) (hhigh : n < 2 ^ 63) :
    IsNumeric column (.number n)

theorem isNumeric_of_validIn (htype : x.type = .integer ∨ x.type = .number) (hv : ValidIn v x) :
    IsNumeric x v := by
  obtain ⟨hm, hrep⟩ := hv
  cases v with
  | null => exact .null
  | integer n => exact .integer n (Value.type_eq_of_matchesColumn rfl hm).symm hrep.1 hrep.2
  | number n => exact .number n (Value.type_eq_of_matchesColumn rfl hm).symm hrep.1 hrep.2
  | character s | string s | varstring s | text s | date n | time n | datetime n =>
    have hsame := Value.type_eq_of_matchesColumn rfl hm
    rcases htype with h | h <;> rw [← hsame] at h <;> cases h

theorem numericValue_number_iff (n m : Int) :
    numericValue x (.number n) = numericValue y (.number m) ↔ SameNumber x y n m := by
  have hx : (10 : ℚ) ^ x.scale ≠ 0 := pow_ne_zero _ (by norm_num)
  have hy : (10 : ℚ) ^ y.scale ≠ 0 := pow_ne_zero _ (by norm_num)
  rw [numericValue, numericValue, Option.some_inj, div_eq_div_iff hx hy, SameNumber]
  exact_mod_cast Iff.rfl

theorem compareValues_number (n m : Int) :
    Value.compareValues (.number n) (.number m) = .eq ↔ n = m := Value.compareData_eq_iff

theorem compareValues_integer (n m : Int) :
    Value.compareValues (.integer n) (.integer m) = .eq ↔ n = m := Value.compareData_eq_iff

/-! ## Values that are read back -/

theorem fits_iff (column : Column) (n : Int) :
    (column.scale ≤ 6 ∧ n.natAbs / 10 ^ column.scale < 10 ^ 12) ↔ HasRoom column (.number n) := by
  rw [HasRoom, Nat.div_lt_iff_lt_mul (Nat.pow_pos (by decide)), ← pow_add]

theorem reading_of_room {n : Int} (h : HasRoom x (.number n)) :
    reading x (.number n) = .number (n * 10 ^ (6 - x.scale)) := if_pos ((fits_iff x n).mpr h)

theorem reading_of_no_room {n : Int} (h : ¬ HasRoom x (.number n)) :
    reading x (.number n) = .null := if_neg fun hfits => h ((fits_iff x n).mp hfits)

theorem sameNumber_iff_read {n m : Int} (hx : x.scale ≤ 6) (hy : y.scale ≤ 6) :
    n * 10 ^ (6 - x.scale) = m * 10 ^ (6 - y.scale) ↔ SameNumber x y n m := by
  have hpos : (10 : Int) ^ (x.scale + y.scale) ≠ 0 := pow_ne_zero _ (by decide)
  have hscale : ∀ s : Nat, s ≤ 6 → (10 : Int) ^ (6 - s) * 10 ^ s = 10 ^ 6 := by
    intro s hs
    rw [← pow_add, Nat.sub_add_cancel hs]
  have hleft : n * 10 ^ (6 - x.scale) * 10 ^ (x.scale + y.scale) = n * 10 ^ y.scale * 10 ^ 6 := by
    rw [← hscale x.scale hx, pow_add]
    ring
  have hright : m * 10 ^ (6 - y.scale) * 10 ^ (x.scale + y.scale) = m * 10 ^ x.scale * 10 ^ 6 := by
    rw [← hscale y.scale hy, pow_add]
    ring
  rw [← mul_left_inj' hpos, hleft, hright, mul_left_inj' (by decide), SameNumber]

/-- What the texts of two numbers say of them. -/
theorem compareValues_reading_number (n m : Int) :
    Value.compareValues (reading x (.number n)) (reading y (.number m)) = .eq ↔
      (HasRoom x (.number n) ↔ HasRoom y (.number m)) ∧
        (HasRoom x (.number n) → HasRoom y (.number m) → SameNumber x y n m) := by
  by_cases hn : HasRoom x (.number n)
  · by_cases hm : HasRoom y (.number m)
    · rw [reading_of_room hn, reading_of_room hm, compareValues_number,
        sameNumber_iff_read hn.1 hm.1]
      exact ⟨fun h => ⟨iff_of_true hn hm, fun _ _ => h⟩, fun h => h.2 hn hm⟩
    · rw [reading_of_room hn, reading_of_no_room hm]
      exact iff_of_false (fun h => by cases h) fun h => hm (h.1.mp hn)
  · by_cases hm : HasRoom y (.number m)
    · rw [reading_of_no_room hn, reading_of_room hm]
      exact iff_of_false (fun h => by cases h) fun h => hn (h.1.mpr hm)
    · rw [reading_of_no_room hn, reading_of_no_room hm]
      exact iff_of_true rfl ⟨iff_of_false hn hm, fun h => absurd h hn⟩

/-- The stored values and the values read back compare as the numbers do. -/
def ComparesEitherWay (x y : Column) (v w : Value) : Prop :=
  (Value.compareValues v w == .eq) = equalNumbers x y v w ∧
    (Value.compareValues (reading x v) (reading y w) == .eq) = equalNumbers x y v w

theorem beq_eq_decide_iff {o : Ordering} {p : Prop} [Decidable p] :
    (o == .eq) = decide p ↔ (o = .eq ↔ p) := by
  rw [Bool.eq_iff_iff, beq_iff_eq, decide_eq_true_eq]

theorem reading_null {column : Column} (h : column.type = .integer ∨ column.type = .number) :
    reading column .null = .null := by
  rcases h with h | h
  · rw [reading, h]
  · rw [reading, h]

theorem compareValues_reading_null (n : Int) :
    Value.compareValues (reading x (.number n)) .null = .eq ↔ ¬ HasRoom x (.number n) := by
  by_cases hn : HasRoom x (.number n)
  · rw [reading_of_room hn]
    exact iff_of_false (fun h => by cases h) fun h => h hn
  · rw [reading_of_no_room hn]
    exact iff_of_true rfl hn

theorem compareValues_null_reading (m : Int) :
    Value.compareValues .null (reading y (.number m)) = .eq ↔ ¬ HasRoom y (.number m) := by
  by_cases hm : HasRoom y (.number m)
  · rw [reading_of_room hm]
    exact iff_of_false (fun h => by cases h) fun h => h hm
  · rw [reading_of_no_room hm]
    exact iff_of_true rfl hm

/-- Where the numbers of two values are found equal both ways. -/
theorem comparesEitherWay_iff (htype : x.type = y.type)
    (hnumeric : x.type = .integer ∨ x.type = .number) (hv : IsNumeric x v) (hw : IsNumeric y w) :
    ComparesEitherWay x y v w ↔ EqualEitherWay x y v w := by
  rw [ComparesEitherWay, equalNumbers, beq_eq_decide_iff, beq_eq_decide_iff]
  cases hv with
  | null =>
    rw [reading_null hnumeric]
    cases hw with
    | null =>
      rw [reading_null (htype ▸ hnumeric)]
      exact iff_of_true ⟨iff_of_true rfl rfl, iff_of_true rfl rfl⟩ trivial
    | integer m hy =>
      refine iff_of_true ⟨?_, ?_⟩ trivial
      · exact iff_of_false (fun h => by cases h) fun h => by cases h
      · exact iff_of_false (fun h => by cases h) fun h => by cases h
    | number m hy =>
      rw [compareValues_null_reading, EqualEitherWay]
      have hstored : Value.compareValues .null (.number m) = .eq ↔
          numericValue x .null = numericValue y (.number m) :=
        iff_of_false (fun h => by cases h) fun h => by cases h
      have hdiffer : numericValue x .null ≠ numericValue y (.number m) := fun h => by cases h
      simp only [hstored, hdiffer, true_and, iff_false, not_not]
  | integer n hx =>
    cases hw with
    | null =>
      rw [reading_null (htype ▸ hnumeric)]
      refine iff_of_true ⟨?_, ?_⟩ trivial
      · exact iff_of_false (fun h => by cases h) fun h => by cases h
      · exact iff_of_false (fun h => by cases h) fun h => by cases h
    | integer m hy =>
      have hequal : numericValue x (.integer n) = numericValue y (.integer m) ↔ n = m := by
        rw [numericValue, numericValue, Option.some_inj, Int.cast_inj]
      refine iff_of_true ⟨?_, ?_⟩ trivial
      · rw [compareValues_integer, hequal]
      · exact (compareValues_integer n m).trans hequal.symm
    | number m hy => cases hx.symm.trans (htype.trans hy)
  | number n hx =>
    cases hw with
    | null =>
      rw [reading_null (htype ▸ hnumeric), compareValues_reading_null, EqualEitherWay]
      have hstored : Value.compareValues (.number n) .null = .eq ↔
          numericValue x (.number n) = numericValue y .null :=
        iff_of_false (fun h => by cases h) fun h => by cases h
      have hdiffer : numericValue x (.number n) ≠ numericValue y .null := fun h => by cases h
      simp only [hstored, hdiffer, true_and, iff_false, not_not]
    | integer m hy => cases hx.symm.trans (htype.trans hy)
    | number m hy =>
      rw [compareValues_number, compareValues_reading_number, numericValue_number_iff, EqualEitherWay,
        ReadAlike]
      tauto

/-- At one scale equal integers are equal numbers. -/
theorem equalEitherWay_of_scale (hscale : x.scale = y.scale) (hv : HasRoom x v) (hw : HasRoom y w) :
    EqualEitherWay x y v w := by
  cases v with
  | number n =>
    cases w with
    | number m =>
      have hpos : (10 : Int) ^ y.scale ≠ 0 := pow_ne_zero _ (by decide)
      refine ⟨?_, .inl ⟨hv, hw⟩⟩
      rw [SameNumber, hscale, mul_left_inj' hpos]
    | null => exact hv
    | integer m | character t | string t | varstring t | text t | date m | time m | datetime m =>
      trivial
  | null =>
    cases w with
    | number m => exact hw
    | null | integer m | character t | string t | varstring t | text t | date m | time m
    | datetime m => trivial
  | integer n | character t | string t | varstring t | text t | date n | time n | datetime n =>
    trivial

/-! ## Values with one text -/

theorem formatNumber_injective {n m : Int} (scale : Nat) (hn : -2 ^ 63 ≤ n ∧ n < 2 ^ 63)
    (hm : -2 ^ 63 ≤ m ∧ m < 2 ^ 63) (h : formatNumber n scale = formatNumber m scale) : n = m := by
  -- a column with 19 digits before the point has room for both
  have hread : ∀ k : Int, -2 ^ 63 ≤ k ∧ k < 2 ^ 63 →
      parseNumber (formatNumber k scale) (scale + 19) scale = some k := by
    intro k hk
    have hwhole : k.natAbs / 10 ^ scale < 10 ^ (scale + 19 - scale) := by
      rw [Nat.add_sub_cancel_left]
      exact Nat.lt_of_le_of_lt (Nat.div_le_self _ _) (by omega)
    rw [parseNumber_formatNumber_eq k scale (Nat.le_add_right scale 19), if_pos ⟨le_refl _, hwhole⟩,
      Nat.sub_self, pow_zero, mul_one]
  have hsame := hread n hn
  rw [h, hread m hm] at hsame
  exact (Option.some.inj hsame).symm

theorem signedDecimal_injective {n m : Int} (hn : -2 ^ 63 ≤ n ∧ n < 2 ^ 63)
    (hm : -2 ^ 63 ≤ m ∧ m < 2 ^ 63) (h : signedDecimal n = signedDecimal m) : n = m := by
  have hsame := parseInteger_signedDecimal hn.1 hn.2
  rw [h, parseInteger_signedDecimal hm.1 hm.2] at hsame
  exact (Option.some.inj hsame).symm

theorem formatValue_ne_null (hv : IsNumeric x v) (hnull : v ≠ .null) :
    (ValueParser.formatValue x v).toList ≠ "NULL".toList := by
  cases hv with
  | null => exact absurd rfl hnull
  | integer n =>
    rw [ValueParser.formatValue, String.toList_ofList]
    exact numberChars_ne_null fun c => isNumberChar_signedDecimal
  | number n =>
    rw [ValueParser.formatValue, String.toList_ofList]
    exact numberChars_ne_null fun c => isNumberChar_formatNumber

/-- The text of a number tells the number. -/
theorem formatValue_injective (hv : IsNumeric x v) (hw : IsNumeric x w)
    (h : ValueParser.formatValue x v = ValueParser.formatValue x w) : v = w := by
  by_cases hvnull : v = .null
  · by_contra hne
    subst hvnull
    exact formatValue_ne_null hw (fun hnull => hne hnull.symm)
      ((congrArg String.toList h.symm).trans String.toList_ofList)
  · have hwnull : w ≠ .null := by
      rintro rfl
      exact formatValue_ne_null hv hvnull ((congrArg String.toList h).trans String.toList_ofList)
    have htext := congrArg String.toList h
    cases hv with
    | null => exact absurd rfl hvnull
    | integer n hx hlow hhigh =>
      cases hw with
      | null => exact absurd rfl hwnull
      | integer m _ hlow' hhigh' =>
        rw [ValueParser.formatValue, ValueParser.formatValue, String.toList_ofList,
          String.toList_ofList] at htext
        exact congrArg Value.integer (signedDecimal_injective ⟨hlow, hhigh⟩ ⟨hlow', hhigh'⟩ htext)
      | number m hx' => cases hx.symm.trans hx'
    | number n hx hlow hhigh =>
      cases hw with
      | null => exact absurd rfl hwnull
      | integer m hx' => cases hx.symm.trans hx'
      | number m _ hlow' hhigh' =>
        rw [ValueParser.formatValue, ValueParser.formatValue, String.toList_ofList,
          String.toList_ofList] at htext
        exact congrArg Value.number
          (formatNumber_injective x.scale ⟨hlow, hhigh⟩ ⟨hlow', hhigh'⟩ htext)

end Values

/-! ## The two statements -/

/-- `FROM a, b` and `FROM a JOIN b`, where an index of `b` holds the rows of each key. -/
structure TwoTables where
  command : String
  tables : String → Option JoinedTable
  tableName : String
  tableAlias : String
  rightName : String
  rightAliasText : String
  left : JoinedTable
  right : JoinedTable
  leftStored : tables tableName = some left
  rightStored : tables rightName = some right
  mirrored : right.Mirrored

namespace TwoTables

variable (t : TwoTables)

def join (type : QueryJoinType) (condition : Option QueryCondition) : QueryJoin :=
  { type, tableName := t.rightName, tableAlias := t.rightAliasText, condition }

def leftSource : Source := ⟨leftAlias t.tableName t.tableAlias, t.left, false⟩

def rightSource : Source :=
  ⟨if t.rightAliasText = "" then t.rightName else t.rightAliasText, t.right, false⟩

def sources : List Source := [t.leftSource, t.rightSource]

def columnCount : Nat := t.left.schema.columns.length + t.right.schema.columns.length

end TwoTables

/-- A column `a.x` of the left table and a column `b.y` of the right one, both INTEGER or both
NUMBER. -/
structure EquatedColumns extends TwoTables where
  x : OnOperand
  y : OnOperand
  aliases : DistinctAliases toTwoTables.sources
  xNamed : x.Names toTwoTables.sources
  yNamed : y.Names toTwoTables.sources
  xLeft : x.place < left.schema.columns.length
  yRight : left.schema.columns.length ≤ y.place
  sameType : x.origin.2.type = y.origin.2.type
  numeric : x.origin.2.type = .integer ∨ x.origin.2.type = .number

namespace EquatedColumns

variable (e : EquatedColumns) (numbers : LongDouble) (fuel : Nat)

def equality : QueryCondition := .comparison e.x.reference .equal e.y.reference

/-- `SELECT * FROM a JOIN b ON a.x = b.y`. -/
def onQuery : ParsedQuery :=
  .allOfJoin e.tableName e.tableAlias (e.join .inner (some e.equality)) none

/-- `SELECT * FROM a, b WHERE a.x = b.y`. -/
def whereQuery : ParsedQuery :=
  .allOfJoin e.tableName e.tableAlias (e.join .cross none) (some e.equality)

def execute (q : ParsedQuery) : OpenRecursion.Run QueryResult :=
  executeSelectChain (storedEnv (sourceTexts numbers) e.command e.tables) fuel q none

def leftValue (p : TableRow × TableRow) : Value := pairValue p.1 p.2 e.x.place

def rightValue (p : TableRow × TableRow) : Value := pairValue p.1 p.2 e.y.place

def pairs : List (TableRow × TableRow) := e.left.rows ×ˢ e.right.rows

/-- The pairs of rows whose numbers are equal. -/
def equalRows : List (List String) :=
  (e.pairs.filter fun p => equalNumbers e.x.origin.2 e.y.origin.2 (e.leftValue p) (e.rightValue p)).map
    (pairTexts (sourceTexts numbers) e.left e.right)

/-- Both statements return the rows with equal numbers, in some order. -/
def ReturnsEqualRows : Prop :=
  ∃ r r', e.execute numbers fuel e.onQuery = .ok r ∧ e.execute numbers fuel e.whereQuery = .ok r' ∧
    r.isOk = true ∧ r'.isOk = true ∧ r.rows.Perm (e.equalRows numbers) ∧
    r'.rows.Perm (e.equalRows numbers)

/-! ## Columns of the join -/

section Columns

variable {e : EquatedColumns}

theorem sources_eq : e.toTwoTables.sources = [e.leftSource] ++ [e.rightSource] := rfl

theorem length_origins : (origins [e.leftSource]).length = e.left.schema.columns.length := by
  rw [origins, List.flatMap_singleton, List.length_map]
  rfl

theorem xColumn : e.left.schema.columns[e.x.place]? = some e.x.origin.2 ∧
    e.x.origin.1 = leftAlias e.tableName e.tableAlias := by
  have hjoined := OnOperand.Names.joined (sources_eq ▸ e.xNamed) (length_origins ▸ e.xLeft)
  rw [origins, List.flatMap_singleton, List.getElem?_map] at hjoined
  obtain ⟨column, hcolumn, heq⟩ := Option.map_eq_some_iff.mp hjoined
  rw [← heq]
  exact ⟨hcolumn, rfl⟩

theorem yColumn :
    e.right.schema.columns[e.y.place - e.left.schema.columns.length]? = some e.y.origin.2 ∧
      e.y.origin.1 = e.rightSource.tableAlias := by
  obtain ⟨halias, hcolumn⟩ := OnOperand.Names.added (sources_eq ▸ e.yNamed) (length_origins ▸ e.yRight)
  rw [length_origins] at hcolumn
  exact ⟨hcolumn, halias⟩

variable {p : TableRow × TableRow} (hp : p ∈ e.pairs)

include hp

theorem mem_pairs : p.1 ∈ e.left.rows ∧ p.2 ∈ e.right.rows := List.mem_product.mp hp

theorem leftValue_eq : p.1.values[e.x.place]? = some (e.leftValue p) := by
  have hlength := length_values (mem_pairs hp).1
  exact pairValue_left (hlength ▸ e.xLeft)

theorem rightValue_eq :
    p.2.values[e.y.place - e.left.schema.columns.length]? = some (e.rightValue p) := by
  have hleft := length_values (mem_pairs hp).1
  have hright := length_values (mem_pairs hp).2
  obtain ⟨hlt, -⟩ := List.getElem?_eq_some_iff.mp (@yColumn e).1
  have hvalue := @pairValue_right p.1 p.2 _ (hright ▸ hlt)
  rw [hvalue, hleft, Nat.add_sub_cancel' e.yRight]
  rfl

theorem validIn_leftValue : ValidIn (e.leftValue p) e.x.origin.2 := by
  obtain ⟨hlt, hvalue⟩ := List.getElem?_eq_some_iff.mp (leftValue_eq hp)
  obtain ⟨hlt', hcolumn⟩ := List.getElem?_eq_some_iff.mp (@xColumn e).1
  have hvalid := (e.left.valid p.1 (mem_pairs hp).1).get hlt hlt'
  rw [List.get_eq_getElem, List.get_eq_getElem] at hvalid
  exact hcolumn ▸ hvalue ▸ hvalid

theorem validIn_rightValue : ValidIn (e.rightValue p) e.y.origin.2 := by
  obtain ⟨hlt, hvalue⟩ := List.getElem?_eq_some_iff.mp (rightValue_eq hp)
  obtain ⟨hlt', hcolumn⟩ := List.getElem?_eq_some_iff.mp (@yColumn e).1
  have hvalid := (e.right.valid p.2 (mem_pairs hp).2).get hlt hlt'
  rw [List.get_eq_getElem, List.get_eq_getElem] at hvalid
  exact hcolumn ▸ hvalue ▸ hvalid

theorem isNumeric_leftValue : IsNumeric e.x.origin.2 (e.leftValue p) :=
  isNumeric_of_validIn e.numeric (validIn_leftValue hp)

theorem isNumeric_rightValue : IsNumeric e.y.origin.2 (e.rightValue p) :=
  isNumeric_of_validIn (e.sameType ▸ e.numeric) (validIn_rightValue hp)

variable (numbers : LongDouble)

theorem cell_left : cell (pairTexts (sourceTexts numbers) e.left e.right p) e.x.place =
    ValueParser.formatValue e.x.origin.2 (e.leftValue p) := by
  have hlt : e.x.place < (tableRow (sourceTexts numbers) e.left.schema p.1).length := by
    rw [length_tableRow, length_values (mem_pairs hp).1]
    exact e.xLeft
  rw [cell, pairTexts, List.getElem?_append_left hlt]
  exact cell_tableRow (@xColumn e).1 (leftValue_eq hp)

theorem cell_right : cell (pairTexts (sourceTexts numbers) e.left e.right p) e.y.place =
    ValueParser.formatValue e.y.origin.2 (e.rightValue p) := by
  have hlength : (tableRow (sourceTexts numbers) e.left.schema p.1).length =
      e.left.schema.columns.length := by
    rw [length_tableRow, length_values (mem_pairs hp).1]
  rw [cell, pairTexts, List.getElem?_append_right (hlength ▸ e.yRight), hlength]
  exact cell_tableRow (@yColumn e).1 (rightValue_eq hp)

omit hp in
/-- The texts of a pair tell its two values. -/
theorem values_of_pairTexts {p q : TableRow × TableRow} (hp : p ∈ e.pairs) (hq : q ∈ e.pairs)
    (h : pairTexts (sourceTexts numbers) e.left e.right p =
      pairTexts (sourceTexts numbers) e.left e.right q) :
    e.leftValue p = e.leftValue q ∧ e.rightValue p = e.rightValue q := by
  constructor
  · refine formatValue_injective (isNumeric_leftValue hp) (isNumeric_leftValue hq) ?_
    rw [← cell_left hp numbers, ← cell_left hq numbers, h]
  · refine formatValue_injective (isNumeric_rightValue hp) (isNumeric_rightValue hq) ?_
    rw [← cell_right hp numbers, ← cell_right hq numbers, h]

end Columns

/-! ## `ON` -/

section On

variable {e : EquatedColumns} (numbers : LongDouble)

theorem carried_left : Carried [e.leftSource]
    (firstState (storedEnv (sourceTexts numbers) e.command e.tables) e.tableName e.tableAlias
      e.left.schema) :=
  carried_firstState e.leftStored rfl (e.aliases.names e.leftSource List.mem_cons_self)

theorem onResult_eq {p : TableRow × TableRow} (hp : p ∈ e.pairs) :
    onResult (sourceTexts numbers) e.command e.tables e.tableName e.tableAlias
        (e.join .inner (some e.equality)) e.left e.right p.1 p.2 =
      .ok (Value.compareValues (e.leftValue p) (e.rightValue p) == .eq) := by
  have hleft : leftPlace (firstState (storedEnv (sourceTexts numbers) e.command e.tables) e.tableName
      e.tableAlias e.left.schema) e.x = some e.x.place := if_pos e.xLeft
  have hright : rightPlace (firstState (storedEnv (sourceTexts numbers) e.command e.tables)
      e.tableName e.tableAlias e.left.schema) e.rightSource e.y = some e.y.place :=
    if_neg (Nat.not_lt_of_le e.yRight)
  have hfound := @onOutcome_found (sourceTexts numbers) _ _ _ e.x e.y .equal p.1 p.2
    (carried_left numbers) e.aliases (sources_eq ▸ e.xNamed) (sources_eq ▸ e.yNamed)
    (length_values (mem_pairs hp).1) (length_values (mem_pairs hp).2) _ hleft _ hright
  let env := storedEnv (sourceTexts numbers) e.command e.tables
  let join := e.join .inner (some e.equality)
  exact @includesRow_of_condition env (firstState env e.tableName e.tableAlias e.left.schema) join
    (rightTable env join e.right.schema []) p.1 p.2 (.inl rfl) e.equality _ rfl hfound

theorem onHolds_eq {p : TableRow × TableRow} (hp : p ∈ e.pairs) :
    onHolds (sourceTexts numbers) e.command e.tables e.tableName e.tableAlias
        (e.join .inner (some e.equality)) e.left e.right p.1 p.2 =
      (Value.compareValues (e.leftValue p) (e.rightValue p) == .eq) := by
  rw [onHolds, onResult_eq numbers hp]

theorem indexServes : IndexServes e.tableName e.tableAlias (e.join .inner (some e.equality)) e.left
    e.right := by
  have hleft := e.aliases.names e.leftSource List.mem_cons_self
  have hright := e.aliases.names e.rightSource (List.mem_cons_of_mem _ List.mem_cons_self)
  have hx : e.x.origin.1 ≠ "" := by
    rw [xColumn.2]
    exact ne_empty_of_isValidName hleft
  have hy : e.y.origin.1 ≠ "" := by
    rw [yColumn.2]
    exact ne_empty_of_isValidName hright
  refine .inr ⟨e.mirrored, e.x.origin.2.name, e.y.origin.2.name,
    ⟨e.x.reference, e.y.reference, rfl, ?_, ?_⟩⟩
  · rw [resolvedJoinColumn_reference hx, xColumn.2]
    exact lookup_buildAliasMap hleft (List.mem_of_getElem? xColumn.1)
  · rw [resolvedJoinColumn_reference hy, yColumn.2]
    exact lookup_buildAliasMap hright (List.mem_of_getElem? yColumn.1)

end On

/-! ## `WHERE` -/

section Where

variable {e : EquatedColumns} (numbers : LongDouble)

theorem reading_of_sameKind {c c' : Column} (h : SameKind c c') {v : Value} (hv : IsNumeric c v)
    (htype : c.type = .integer ∨ c.type = .number) : reading c' v = reading c v := by
  cases hv with
  | null =>
    rw [reading_null htype, reading_null (h.type ▸ htype)]
  | integer n => rfl
  | number n hc => rw [reading, reading, (h.format hc).2]

/-- The value that a condition reads in a cell. -/
theorem valueFromResultText_eq {merged : Schema} {i : Nat} {c : Column} {v : Value} {text : String}
    {r : QueryResult} (hr : r.columns = tableColumns merged)
    (hcolumn : ∃ c', merged.columns[i]? = some c' ∧ SameKind c c') (hv : ValidIn v c)
    (htype : c.type = .integer ∨ c.type = .number)
    (htext : text = ValueParser.formatValue c v) :
    valueFromResultText (sourceTexts numbers) (columnOf r i) text = reading c v := by
  obtain ⟨c', hc', hkind⟩ := hcolumn
  have hcell : columnOf r i = ⟨c'.name, Column.typeToString c'.type⟩ := by
    rw [columnOf, hr, tableColumns, List.getElem?_map, hc']
    rfl
  have hvalid := merged.columnsValid.2.2.1 c' (List.mem_of_getElem? hc')
  have hback := @readBack_eq numbers c' v hvalid (matchesColumn_of_sameKind hkind hv.1) hv.2
  rw [readBack] at hback
  rw [hcell, htext, ← formatValue_of_sameKind hkind hv.1,
    ← reading_of_sameKind hkind (isNumeric_of_validIn htype hv) htype]
  exact hback

/-- What the condition says of a row of the result. -/
def keepsRow (source : QueryResult) (row : List String) : Bool :=
  Value.compareValues
      (valueFromResultText (sourceTexts numbers) (columnOf source e.x.place) (cell row e.x.place))
      (valueFromResultText (sourceTexts numbers) (columnOf source e.y.place) (cell row e.y.place)) ==
    .eq

theorem resultRowMatches_eq {source : QueryResult}
    (hx : lookupColumn source e.x.origin.1 e.x.origin.2.name = .found e.x.place)
    (hy : lookupColumn source e.y.origin.1 e.y.origin.2.name = .found e.y.place)
    (row : List String) :
    resultRowMatches (sourceTexts numbers) source row e.equality =
      .ok (@keepsRow e numbers source row) := by
  have hcompared : ∀ a : OnOperand, ∀ i,
      lookupColumn source a.origin.1 a.origin.2.name = .found i →
      comparedColumn (sourceTexts numbers) source row a.reference =
        .ok (columnOf source i,
          valueFromResultText (sourceTexts numbers) (columnOf source i) (cell row i)) := by
    intro a i hi
    have hindex : expressionColumnIndex source a.reference = .found i := hi
    rw [comparedColumn, hindex]
  rw [equality, resultRowMatches, comparisonMatches, if_neg (by simp [OnOperand.reference,
    QueryExpression.isColumn]), hcompared e.x _ hx, hcompared e.y _ hy]
  rfl

/-- The merged columns of the two statements. -/
theorem exists_merged {type : QueryJoinType} (htype : type ≠ .natural) (h : e.columnCount ≤ 991) :
    ∃ added merged, joinColumnsForRightSide e.left.schema e.right.schema type = some added ∧
      mergedJoinSchema e.left.schema added = some merged := by
  have hadded := joinColumnsForRightSide_eq e.left.schema e.right.schema type
  have hlength := congrArg List.length
    (addedColumns_fst_of_ne htype (columnNames e.left.schema) e.right.schema.columns)
  rw [List.length_map] at hlength
  obtain ⟨merged, hmerged⟩ := Option.isSome_iff_exists.mp (mergedJoinSchema_isSome hadded (by
    rw [List.length_append, List.length_map, hlength]
    exact h))
  exact ⟨_, merged, hadded, hmerged⟩

/-- The columns of the result are those of the two tables. -/
theorem mergedColumn {merged : Schema}
    (hkinds : List.Forall₂ SameKind (e.left.schema.columns ++ e.right.schema.columns) merged.columns)
    {i : Nat} {c : Column} (hc : (e.left.schema.columns ++ e.right.schema.columns)[i]? = some c) :
    ∃ c', merged.columns[i]? = some c' ∧ SameKind c c' := by
  obtain ⟨hlt, hget⟩ := List.getElem?_eq_some_iff.mp hc
  have hlt' : i < merged.columns.length := hkinds.length_eq ▸ hlt
  have hkind := hkinds.get hlt hlt'
  rw [List.get_eq_getElem, List.get_eq_getElem, hget] at hkind
  exact ⟨_, List.getElem?_eq_getElem hlt', hkind⟩

/-- The rows of `FROM a, b`, with the two columns at their places. -/
theorem executeJoin_cross (h : e.columnCount ≤ 991) :
    ∃ r merged, executeJoin (storedEnv (sourceTexts numbers) e.command e.tables) e.tableName
        e.tableAlias [e.join .cross none] = some r ∧ r.isOk = true ∧
      r.columns = tableColumns merged ∧
      List.Forall₂ SameKind (e.left.schema.columns ++ e.right.schema.columns) merged.columns ∧
      r.rows = e.pairs.map (pairTexts (sourceTexts numbers) e.left e.right) ∧
      lookupColumn r e.x.origin.1 e.x.origin.2.name = .found e.x.place ∧
      lookupColumn r e.y.origin.1 e.y.origin.2.name = .found e.y.place := by
  have hne : QueryJoinType.cross ≠ .natural := by decide
  obtain ⟨added, merged, hadded, hmerged⟩ := exists_merged hne h
  have hkinds := sameKind_merged hne hadded hmerged
  let join := e.join .cross none
  have hstep := @joinStep_cross numbers e.command e.tables e.tableName e.tableAlias join e.left e.right
    added merged e.leftStored e.rightStored hadded hmerged rfl
  have hsource : JoinsSource e.tables join e.rightSource := ⟨rfl, e.rightStored, .inl rfl, rfl⟩
  have hcarried := (carried_left numbers).joinStep hsource e.aliases hstep
  have hjoin := @executeJoin_eq (storedEnv (sourceTexts numbers) e.command e.tables) e.tableName
    e.tableAlias e.left.schema (storedEnv_loadSchema e.leftStored) [join]
  rw [joinAll_single, hstep, joinedResult] at hjoin
  refine ⟨_, merged, hjoin, ?_, ?_, hkinds, ?_, ?_, ?_⟩
  · exact (sameData_setJoinColumnLookup _ _).isOk
  · exact (sameData_setJoinColumnLookup _ _).columns
  · rw [(sameData_setJoinColumnLookup _ _).rows, List.map_map]
    refine List.map_congr_left fun p hp => ?_
    exact tableRow_merged hkinds (mem_pairs hp).1 (mem_pairs hp).2
  · exact hcarried.lookup e.aliases rfl rfl rfl e.xNamed
  · exact hcarried.lookup e.aliases rfl rfl rfl e.yNamed

theorem keepsRow_eq {source : QueryResult} {merged : Schema}
    (hcolumns : source.columns = tableColumns merged)
    (hkinds : List.Forall₂ SameKind (e.left.schema.columns ++ e.right.schema.columns) merged.columns)
    {p : TableRow × TableRow} (hp : p ∈ e.pairs) :
    @keepsRow e numbers source (pairTexts (sourceTexts numbers) e.left e.right p) =
      (Value.compareValues (reading e.x.origin.2 (e.leftValue p))
        (reading e.y.origin.2 (e.rightValue p)) == .eq) := by
  have hx : (e.left.schema.columns ++ e.right.schema.columns)[e.x.place]? = some e.x.origin.2 := by
    rw [List.getElem?_append_left e.xLeft]
    exact xColumn.1
  have hy : (e.left.schema.columns ++ e.right.schema.columns)[e.y.place]? = some e.y.origin.2 := by
    rw [List.getElem?_append_right e.yRight]
    exact yColumn.1
  rw [keepsRow, valueFromResultText_eq numbers hcolumns (mergedColumn hkinds hx)
      (validIn_leftValue hp) e.numeric (cell_left hp numbers),
    valueFromResultText_eq numbers hcolumns (mergedColumn hkinds hy) (validIn_rightValue hp)
      (e.sameType ▸ e.numeric) (cell_right hp numbers)]

end Where

/-! ## Both statements -/

section Both

variable {e : EquatedColumns} (numbers : LongDouble) (fuel : Nat)

/-- The pairs whose stored values compare equal. -/
def storedEqual (p : TableRow × TableRow) : Bool :=
  Value.compareValues (e.leftValue p) (e.rightValue p) == .eq

/-- The pairs whose values compare equal when they are read back. -/
def readEqual (p : TableRow × TableRow) : Bool :=
  Value.compareValues (reading e.x.origin.2 (e.leftValue p))
    (reading e.y.origin.2 (e.rightValue p)) == .eq

theorem execute_onQuery (h : e.columnCount ≤ 991) :
    ∃ r, e.execute numbers (fuel + 1) e.onQuery = .ok r ∧ r.isOk = true ∧
      r.rows.Perm ((e.pairs.filter (@storedEqual e)).map
        (pairTexts (sourceTexts numbers) e.left e.right)) := by
  have hne : QueryJoinType.inner ≠ .natural := by decide
  obtain ⟨added, merged, hadded, hmerged⟩ := exists_merged hne h
  have hon : OnEvaluates (sourceTexts numbers) e.command e.tables e.tableName e.tableAlias
      (e.join .inner (some e.equality)) e.left e.right := by
    intro l hl r hr error herror
    rw [onResult_eq numbers (List.mem_product.mpr ⟨hl, hr⟩)] at herror
    cases herror
  obtain ⟨r, hjoin, hok, hrows⟩ := executeJoin_inner_rows e.leftStored e.rightStored hadded hmerged
    rfl hon indexServes
  refine ⟨r, executeSelectChain_all fuel hjoin, hok, hrows.trans (List.Perm.of_eq ?_)⟩
  refine congrArg (List.map _) (List.filter_congr fun p hp => ?_)
  rw [onHolds_eq numbers hp, storedEqual]

theorem execute_whereQuery (h : e.columnCount ≤ 991) :
    ∃ r, e.execute numbers (fuel + 1) e.whereQuery = .ok r ∧ r.isOk = true ∧
      r.rows = (e.pairs.filter (@readEqual e)).map
        (pairTexts (sourceTexts numbers) e.left e.right) := by
  obtain ⟨source, merged, hjoin, hok, hcolumns, hkinds, hrows, hx, hy⟩ := executeJoin_cross numbers h
  obtain ⟨r, hchain, hok', hkept⟩ := @executeSelectChain_where _ _ _ _ source fuel e.equality
    (@keepsRow e numbers source) hjoin hok (fun _ _ => rfl)
    fun row _ => resultRowMatches_eq numbers hx hy row
  refine ⟨r, hchain, hok', ?_⟩
  rw [hkept, hrows, List.filter_map]
  refine congrArg (List.map _) (List.filter_congr fun p hp => ?_)
  exact keepsRow_eq numbers hcolumns hkinds hp

/-- Too many columns make no schema. -/
theorem le_of_execute_onQuery {r : QueryResult}
    (h : e.execute numbers (fuel + 1) e.onQuery = .ok r) (hok : r.isOk = true) :
    e.columnCount ≤ 991 := by
  let env := storedEnv (sourceTexts numbers) e.command e.tables
  let join := e.join .inner (some e.equality)
  have hadded := joinColumnsForRightSide_eq e.left.schema e.right.schema .inner
  have hjoin := @executeJoin_single env e.tableName e.tableAlias join _ _
    (storedEnv_loadSchema e.leftStored) (storedEnv_loadSchema e.rightStored) _ hadded
  cases hresult : executeJoin env e.tableName e.tableAlias [join] with
  | none =>
    cases h.symm.trans (executeSelectChain_throws fuel hresult)
  | some r' =>
    cases h.symm.trans (executeSelectChain_all fuel hresult)
    rw [hresult] at hjoin
    unfold joinResult at hjoin
    split at hjoin
    · cases hjoin
      cases hok
    · obtain ⟨merged, hmerged, -⟩ := Option.map_eq_some_iff.mp hjoin.symm
      have hkinds := sameKind_merged (by decide) hadded hmerged
      have hlength := hkinds.length_eq
      rw [List.length_append] at hlength
      have hcount := merged.columnsValid.2.1
      rw [← hlength] at hcount
      exact hcount

end Both

/-! ## `1.5` and `1.50` -/

/-- The values are within 12 digits before and 6 behind the point. -/
def InRange (e : EquatedColumns) : Prop :=
  ∀ l ∈ e.left.rows, ∀ r ∈ e.right.rows,
    HasRoom e.x.origin.2 (pairValue l r e.x.place) ∧ HasRoom e.y.origin.2 (pairValue l r e.y.place)

def numberColumn (name : String) (scale : Nat) : Column := ⟨name, .number, true, 8, 10, scale⟩

def oneNumberColumn (tableName : String) (column : Column) : SchemaParts where
  tableName := tableName
  columns := [column]
  constraints := []
  indexes := []
  storageMode := .disk

def oneNumber (n : Int) : TableRow := ⟨⟨1, 0⟩, [.number n]⟩

theorem oneNumber_valid {n : Int} {column : Column} (h : ValidIn (.number n) column) :
    ∀ row ∈ [oneNumber n], List.Forall₂ ValidIn row.values [column] := by
  intro row hrow
  cases List.mem_singleton.mp hrow
  exact .cons h .nil

def noneFound : IndexDefinition → Bytes → List RecordId := fun _ _ => []

theorem noneFound_nodup : ∀ index key, (noneFound index key).Nodup := fun _ _ => .nil

theorem oneNumber_nodup (n : Int) : ([oneNumber n].map (·.recordId)).Nodup :=
  List.nodup_singleton _

/-- Table `a` with `x = 1.5`, a NUMBER(10, 1). -/
def leftPrices : JoinedTable where
  schema := ⟨oneNumberColumn "a" (numberColumn "x" 1), by decide, by decide, by decide, by decide⟩
  rows := [oneNumber 15]
  find := noneFound
  valid := oneNumber_valid ⟨by decide, by decide, by decide⟩
  distinctIds := oneNumber_nodup _
  foundOnce := noneFound_nodup

/-- Table `b` with `y = 1.50`, a NUMBER(10, 2). -/
def rightPrices : JoinedTable where
  schema := ⟨oneNumberColumn "b" (numberColumn "y" 2), by decide, by decide, by decide, by decide⟩
  rows := [oneNumber 150]
  find := noneFound
  valid := oneNumber_valid ⟨by decide, by decide, by decide⟩
  distinctIds := oneNumber_nodup _
  foundOnce := noneFound_nodup

def pricesTables (name : String) : Option JoinedTable :=
  if name = "a" then some leftPrices else if name = "b" then some rightPrices else none

def prices : EquatedColumns where
  command := ""
  tables := pricesTables
  tableName := "a"
  tableAlias := ""
  rightName := "b"
  rightAliasText := ""
  left := leftPrices
  right := rightPrices
  leftStored := rfl
  rightStored := rfl
  mirrored := by
    intro index hindex
    cases hindex
  x := ⟨0, ("a", numberColumn "x" 1), "a.x", 0⟩
  y := ⟨1, ("b", numberColumn "y" 2), "b.y", 0⟩
  aliases := ⟨by decide, by decide⟩
  xNamed := rfl
  yNamed := rfl
  xLeft := by decide
  yRight := by decide
  sameType := rfl
  numeric := .inr rfl

end EquatedColumns

end ScratchDb.Select
