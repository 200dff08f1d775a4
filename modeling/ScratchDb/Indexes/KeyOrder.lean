import ScratchDb.Indexes.IndexKey
import ScratchDb.Lib.BigEndian

/-!
# The order of index keys

The entries of an index stand in the order of their keys' bytes, the values of
a column in the order of `compare_values`. The two orders agree except on
dates: `make_index_key` flips the sign bit of the 64-bit numbers but not of
the 32-bit days, and so puts the days before 1970 behind all others.
-/

namespace ScratchDb

namespace Value

/-- Pairs that are equal alike and ordered alike compare alike. -/
theorem compareData_congr {α β : Type} [DecidableEq α] [LT α] [DecidableLT α] [DecidableEq β]
    [LT β] [DecidableLT β] {a b : α} {x y : β} (heq : a = b ↔ x = y) (hlt : a < b ↔ x < y) :
    compareData a b = compareData x y := by
  simp only [compareData, heq, hlt]

theorem compareData_cons (c : UInt8) (x y : Bytes) :
    compareData (c :: x) (c :: y) = compareData x y :=
  compareData_congr (List.cons_inj_right c) List.cons_lt_cons_self

theorem compareData_of_lt {x y : Int} (h : x < y) :
    compareData x y = .lt ∧ compareData y x = .gt := by
  constructor
  · rw [compareData, if_neg (by omega), if_pos h]
  · rw [compareData, if_neg (by omega), if_neg (by omega)]

end Value

open Value

/-! ## One encoding at a time -/

theorem compareData_int64Key {x y : Int} (hx : -2 ^ 63 ≤ x ∧ x < 2 ^ 63)
    (hy : -2 ^ 63 ≤ y ∧ y < 2 ^ 63) :
    compareData (int64Key x) (int64Key y) = compareData x y := by
  refine compareData_congr ?_ ?_
  · exact (BigEndian.encode_inj (by omega) (by omega)).trans (by omega)
  · exact (BigEndian.encode_lt_iff (by omega) (by omega)).trans (by omega)

/-- The 32-bit keys compare as the unsigned numbers. -/
theorem compareData_uint32Key (x y : Int) :
    compareData (uint32Key x) (uint32Key y) = compareData (x % 2 ^ 32) (y % 2 ^ 32) := by
  refine compareData_congr ?_ ?_
  · exact (BigEndian.encode_inj (by omega) (by omega)).trans (by omega)
  · exact (BigEndian.encode_lt_iff (by omega) (by omega)).trans (by omega)

/-- Both values are dates, and one of them only is before 1970. -/
def DatesAcrossEpoch (v w : Value) : Prop :=
  v.type = .date ∧ w.type = .date ∧ ¬ (v.dateData < 0 ↔ w.dateData < 0)

/-- Dates compare as their keys exactly if both are before 1970 or none is. -/
theorem compareData_dateKey_iff {x y : Int} (hx : -2 ^ 31 ≤ x ∧ x < 2 ^ 31)
    (hy : -2 ^ 31 ≤ y ∧ y < 2 ^ 31) :
    compareData (uint32Key x) (uint32Key y) = compareData x y ↔ (x < 0 ↔ y < 0) := by
  rw [compareData_uint32Key]
  constructor
  · intro h
    by_contra hside
    -- the day before 1970 is the smaller one and has the larger unsigned number
    rcases lt_or_ge x 0 with hneg | hnonneg
    · rw [(compareData_of_lt (show x < y by omega)).1,
        (compareData_of_lt (show y % 2 ^ 32 < x % 2 ^ 32 by omega)).2] at h
      cases h
    · rw [(compareData_of_lt (show y < x by omega)).2,
        (compareData_of_lt (show x % 2 ^ 32 < y % 2 ^ 32 by omega)).1] at h
      cases h
  · intro hside
    exact compareData_congr (by omega) (by omega)

/-! ## Values of a column -/

/-- The byte of the type decides when only one value is NULL. -/
theorem compareData_keyBytes_null {v w : Value} (hv : v.isNull = true) :
    compareData v.keyBytes w.keyBytes = compareValues v w ∧
      compareData w.keyBytes v.keyBytes = compareValues w v := by
  cases v <;> cases hv
  cases w with
  | null => exact ⟨rfl, rfl⟩
  | _ =>
    constructor <;>
      simp [keyBytes, compareData, compareValues, isNull, Value.type, ColumnType.code,
        List.cons_lt_cons_iff]

theorem not_datesAcrossEpoch {v w : Value} (h : v.type ≠ .date) : ¬ DatesAcrossEpoch v w :=
  fun hacross => h hacross.1

theorem compareData_keyBytes_iff {v w : Value} (hv : v.Representable) (hw : w.Representable)
    (ht : v.type = w.type) :
    compareData v.keyBytes w.keyBytes = compareValues v w ↔ ¬ DatesAcrossEpoch v w := by
  cases v <;> cases w <;> cases ht
  case null.null => exact iff_of_true rfl (not_datesAcrossEpoch (by decide))
  case date.date m n =>
    have hkeys : compareData (Value.date m).keyBytes (Value.date n).keyBytes =
        compareData (uint32Key m) (uint32Key n) := compareData_cons _ _ _
    have hvalues : compareValues (.date m) (.date n) = compareData m n := rfl
    rw [hkeys, hvalues, compareData_dateKey_iff hv hw]
    simp [DatesAcrossEpoch, Value.type, dateData]
  case time.time m n =>
    refine iff_of_true ((compareData_cons _ _ _).trans ?_)
      (not_datesAcrossEpoch (by simp [Value.type]))
    have hvalues : compareValues (.time m) (.time n) = compareData m n := rfl
    simp only [Representable] at hv hw
    rw [hvalues]
    exact (compareData_uint32Key m n).trans (compareData_congr (by omega) (by omega))
  -- the other numbers take 64 bits, the texts are their own bytes
  case integer.integer | number.number | datetime.datetime =>
    exact iff_of_true ((compareData_cons _ _ _).trans (compareData_int64Key hv hw))
      (not_datesAcrossEpoch (by simp [Value.type]))
  all_goals
    exact iff_of_true (compareData_cons _ _ _) (not_datesAcrossEpoch (by simp [Value.type]))

/-- The keys of two values of a column compare as the values exactly if the values are
not two dates on different sides of 1970. -/
theorem makeIndexKey_order (column : Column) (v w : Value) (hv : v.Representable)
    (hw : w.Representable) (hmv : v.matchesColumn column = true)
    (hmw : w.matchesColumn column = true) :
    (∃ kv kw, makeIndexKey column v = some kv ∧ makeIndexKey column w = some kw ∧
      compareData kv kw = compareValues v w) ↔ ¬ DatesAcrossEpoch v w := by
  have hkeys : (∃ kv kw, makeIndexKey column v = some kv ∧ makeIndexKey column w = some kw ∧
      compareData kv kw = compareValues v w) ↔
        compareData v.keyBytes w.keyBytes = compareValues v w := by
    simp [makeIndexKey_eq, hmv, hmw]
  rw [hkeys]
  cases hnv : v.isNull with
  | true =>
    refine iff_of_true (compareData_keyBytes_null hnv).1 (not_datesAcrossEpoch ?_)
    cases v <;> cases hnv
    decide
  | false =>
    cases hnw : w.isNull with
    | true =>
      refine iff_of_true (compareData_keyBytes_null hnw).2 fun hacross => ?_
      cases w <;> cases hnw
      cases hacross.2.1
    | false =>
      exact compareData_keyBytes_iff hv hw ((type_eq_of_matchesColumn hnv hmv).trans
        (type_eq_of_matchesColumn hnw hmw).symm)

/-- A column of dates without NULL. -/
def dayColumn : Column := ⟨"day", .date, false, 4, 0, 0⟩

/-- The last day of 1969 and the first day of 1970 have their keys the wrong way round. -/
theorem makeIndexKey_lastDay :
    ¬ ∃ kv kw, makeIndexKey dayColumn (.date (-1)) = some kv ∧
      makeIndexKey dayColumn (.date 0) = some kw ∧
        compareData kv kw = compareValues (.date (-1)) (.date 0) := by
  rintro ⟨kv, kw, hkv, hkw, h⟩
  cases hkv
  cases hkw
  revert h
  decide

/-- Two days before 1970 have their keys in order. -/
theorem makeIndexKey_order_before :
    ∃ kv kw, makeIndexKey dayColumn (.date (-2)) = some kv ∧
      makeIndexKey dayColumn (.date (-1)) = some kw ∧
        compareData kv kw = compareValues (.date (-2)) (.date (-1)) :=
  (makeIndexKey_order dayColumn (.date (-2)) (.date (-1)) ⟨by decide, by decide⟩
    ⟨by decide, by decide⟩ (by decide) (by decide)).mpr fun hacross => hacross.2.2 (by decide)

end ScratchDb
