import ScratchDb.Lib.LittleEndian
import ScratchDb.Query.Schema

/-!
# Keys of indexes

Model of `Database::make_index_key`: the type of the column and the value, the
numbers with their highest byte first. Two values of a column have the same key
exactly if `compare_values` finds them equal.
-/

namespace ScratchDb

/-- The numbers of the enumeration. -/
def ColumnType.code : ColumnType → UInt8
  | .nullType => 0
  | .integer => 1
  | .number => 2
  | .character => 3
  | .string => 4
  | .varstring => 5
  | .date => 6
  | .time => 7
  | .datetime => 8
  | .text => 9

/-- `append_int64_key`: flipping the sign bit is adding `2 ^ 63`. -/
def int64Key (value : Int) : Bytes :=
  (LittleEndian.encode 8 ((value + 2 ^ 63) % 2 ^ 64).toNat).reverse

/-- `append_uint32_key`. -/
def uint32Key (value : Int) : Bytes := (LittleEndian.encode 4 (value % 2 ^ 32).toNat).reverse

def makeIndexKey (column : Column) (value : Value) : Option Bytes :=
  if value.matchesColumn column = false then none
  else if value.isNull then some [ColumnType.nullType.code]
  else
    match column.type with
    | .integer => some (column.type.code :: int64Key value.integerData)
    | .number => some (column.type.code :: int64Key value.numberData)
    | .date => some (column.type.code :: uint32Key value.dateData)
    | .time => some (column.type.code :: uint32Key value.timeData)
    | .datetime => some (column.type.code :: int64Key value.datetimeData)
    | .nullType => none
    | _ => some (column.type.code :: value.stringData)

/-- The members are of the sizes of their C++ types. -/
def Value.Representable : Value → Prop
  | .integer n => -2 ^ 63 ≤ n ∧ n < 2 ^ 63
  | .number n => -2 ^ 63 ≤ n ∧ n < 2 ^ 63
  | .datetime n => -2 ^ 63 ≤ n ∧ n < 2 ^ 63
  | .date n => -2 ^ 31 ≤ n ∧ n < 2 ^ 31
  | .time n => n < 2 ^ 32
  | _ => True

theorem int64Key_inj {x y : Int} (hx : -2 ^ 63 ≤ x ∧ x < 2 ^ 63) (hy : -2 ^ 63 ≤ y ∧ y < 2 ^ 63)
    (h : int64Key x = int64Key y) : x = y := by
  have hdecode := congrArg LittleEndian.decode (List.reverse_injective h)
  rw [LittleEndian.decode_encode (by omega), LittleEndian.decode_encode (by omega)] at hdecode
  omega

theorem uint32Key_inj {x y : Int} (hxy : x % 2 ^ 32 = y % 2 ^ 32 → x = y)
    (h : uint32Key x = uint32Key y) : x = y := by
  have hdecode := congrArg LittleEndian.decode (List.reverse_injective h)
  rw [LittleEndian.decode_encode (by omega), LittleEndian.decode_encode (by omega)] at hdecode
  exact hxy (by omega)

/-- The key of a value that matches its column. -/
def Value.keyBytes (v : Value) : Bytes :=
  v.type.code ::
    match v with
    | .null => []
    | .integer n => int64Key n
    | .number n => int64Key n
    | .date n => uint32Key n
    | .time n => uint32Key n
    | .datetime n => int64Key n
    | .character s => s
    | .string s => s
    | .varstring s => s
    | .text s => s

theorem Value.type_eq_of_matchesColumn {v : Value} {column : Column} (hnull : v.isNull = false)
    (h : v.matchesColumn column = true) : v.type = column.type := by
  cases v with
  | null => cases hnull
  | integer n | number n | character s | string s | varstring s | date n | time n | datetime n
  | text s =>
    simp only [Value.matchesColumn, Bool.and_eq_true, decide_eq_true_eq] at h
    exact h.1

theorem makeIndexKey_eq (column : Column) (v : Value) :
    makeIndexKey column v = if v.matchesColumn column then some v.keyBytes else none := by
  cases hm : v.matchesColumn column with
  | false =>
    rw [makeIndexKey, if_pos hm]
    rfl
  | true =>
    rw [makeIndexKey, if_neg (by simp [hm])]
    cases hnull : v.isNull with
    | true =>
      cases v with
      | null => rfl
      | _ => cases hnull
    | false =>
      rw [if_neg (by simp), ← Value.type_eq_of_matchesColumn hnull hm]
      cases v with
      | null => cases hnull
      | _ => rfl

theorem Value.keyBytes_inj {v w : Value} (hv : v.Representable) (hw : w.Representable)
    (ht : v.type = w.type) (h : v.keyBytes = w.keyBytes) : v = w := by
  have hdata := (List.cons_eq_cons.mp h).2
  cases v <;> cases w <;> cases ht
  case null.null => rfl
  case integer.integer => exact congrArg _ (int64Key_inj hv hw hdata)
  case number.number => exact congrArg _ (int64Key_inj hv hw hdata)
  case datetime.datetime => exact congrArg _ (int64Key_inj hv hw hdata)
  case date.date m n =>
    simp only [Value.Representable] at hv hw
    exact congrArg _ (uint32Key_inj (by omega) hdata)
  case time.time m n =>
    simp only [Value.Representable] at hv hw
    exact congrArg _ (Int.ofNat_inj.mp (uint32Key_inj (by omega) hdata))
  all_goals exact congrArg _ hdata

/-- Two values of a column have the same key exactly if they compare equal. -/
theorem keyBytes_eq_iff {column : Column} {v w : Value} (hv : v.Representable)
    (hw : w.Representable) (hmv : v.matchesColumn column = true)
    (hmw : w.matchesColumn column = true) :
    v.keyBytes = w.keyBytes ↔ Value.compareValues v w = .eq := by
  cases hnv : v.isNull with
  | true =>
    cases v <;> cases hnv
    cases w with
    | null => simp
    | _ => simp [Value.keyBytes, Value.compareValues, Value.isNull, Value.type, ColumnType.code]
  | false =>
    cases hnw : w.isNull with
    | true =>
      cases w <;> cases hnw
      cases v with
      | null => cases hnv
      | _ => simp [Value.keyBytes, Value.compareValues, Value.isNull, Value.type, ColumnType.code]
    | false =>
      have ht : v.type = w.type :=
        (Value.type_eq_of_matchesColumn hnv hmv).trans (Value.type_eq_of_matchesColumn hnw hmw).symm
      constructor
      · intro h
        rw [Value.keyBytes_inj hv hw ht h, Value.compareValues_self]
      · intro h
        rw [Value.eq_of_compareValues ht h]

end ScratchDb
