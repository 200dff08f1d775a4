import Mathlib.Order.Compare
import ScratchDb.Lib.PartialSort
import ScratchDb.Select.Results

/-!
# ORDER BY

The comparison that `order_result` of `src/query/query_executor.cpp` gives to
`std::stable_sort` goes through the columns of `ORDER BY` until two cells differ,
and has no answer where `std::stold` throws on one of the cells it reads. Numbers
are ordered; a cell never reads as the number that is not equal to itself.
-/

namespace ScratchDb.Select

/-! ## The sort -/

section Sorting

variable {less : List String → List String → Option Bool}

theorem insertRow_eq (row : List String) (rows : List (List String)) :
    insertRow less row rows = PartialSort.insert less row rows := by
  induction rows with
  | nil => rfl
  | cons r rows ih => rw [insertRow, PartialSort.insert, ih]

theorem stableSort_eq (rows : List (List String)) :
    stableSort less rows = PartialSort.sort less rows := by
  induction rows with
  | nil => rfl
  | cons row rows ih =>
    rw [stableSort, PartialSort.sort, ih]
    exact bind_congr fun sorted => insertRow_eq row sorted

theorem perm_stableSort {rows sorted : List (List String)} (h : stableSort less rows = some sorted) :
    sorted.Perm rows := by
  rw [stableSort_eq] at h
  exact PartialSort.perm_sort h

end Sorting

/-! ## The comparison of rows -/

/-- The comparison of two numbers. -/
def LongDouble.compare (numbers : LongDouble) (l r : numbers.Number) : Ordering :=
  if numbers.equal l r then .eq else if numbers.less l r then .lt else .gt

section Texts

variable (texts : ValueTexts)

/-- The comparison of two rows by the columns of `ORDER BY`. -/
def rowOrder (columns : List QueryResultColumn) :
    List (Nat × Bool) → List String → List String → Option Ordering
  | [] => fun _ _ => some .eq
  | (i, descending) :: indexes =>
    let cells (left right : List String) :=
      compareCells texts (columns[i]?.getD ⟨"", ""⟩) (cell left i) (cell right i)
    PartialSort.lex (if descending then PartialSort.reverse cells else cells) (rowOrder columns indexes)

variable {texts}

theorem rowLess_eq (columns : List QueryResultColumn) (indexes : List (Nat × Bool))
    (left right : List String) :
    rowLess texts columns left right indexes =
      PartialSort.lessBy (rowOrder texts columns indexes) left right := by
  induction indexes with
  | nil => rfl
  | cons index indexes ih =>
    obtain ⟨i, descending⟩ := index
    rw [rowLess, ih, PartialSort.lessBy, PartialSort.lessBy, rowOrder]
    cases descending with
    | false =>
      simp only [PartialSort.lex, Bool.false_eq_true, if_false]
      cases compareCells texts (columns[i]?.getD ⟨"", ""⟩) (cell left i) (cell right i) with
      | none => rfl
      | some o => cases o <;> rfl
    | true =>
      simp only [PartialSort.lex, PartialSort.reverse, if_true]
      cases compareCells texts (columns[i]?.getD ⟨"", ""⟩) (cell left i) (cell right i) with
      | none => rfl
      | some o => cases o <;> rfl

/-- Texts that are no numbers are compared as they are. -/
theorem compareTexts_eq (left right : String) :
    (if left = right then Ordering.eq else if left < right then .lt else .gt) = compare left right := by
  show _ = compareOfLessAndEq left right
  unfold compareOfLessAndEq
  by_cases h : left = right
  · rw [if_pos h, if_neg (by rw [h]; exact String.lt_irrefl right), if_pos h]
  · by_cases hlt : left < right
    · rw [if_neg h, if_pos hlt, if_pos hlt]
    · rw [if_neg h, if_neg hlt, if_neg hlt, if_neg h]

theorem lawful_compareCells [Std.TransCmp texts.numbers.compare] (column : QueryResultColumn) :
    PartialSort.Lawful (compareCells texts column) := by
  cases hcolumn : isNumeric column with
  | true =>
    have hcompare : compareCells texts column =
        PartialSort.compareBy texts.numbers.compare (stold texts) := by
      funext left right
      rw [compareCells, hcolumn]
      rfl
    rw [hcompare]
    exact PartialSort.lawful_compareBy _ _
  | false =>
    have hcompare : compareCells texts column = PartialSort.compareBy compare some := by
      funext left right
      rw [compareCells, hcolumn, compareTexts_eq]
      rfl
    rw [hcompare]
    exact PartialSort.lawful_compareBy _ _

theorem lawful_rowOrder [Std.TransCmp texts.numbers.compare] (columns : List QueryResultColumn)
    (indexes : List (Nat × Bool)) : PartialSort.Lawful (rowOrder texts columns indexes) := by
  induction indexes with
  | nil => exact PartialSort.lawful_tie
  | cons index indexes ih =>
    obtain ⟨i, descending⟩ := index
    have hcells : PartialSort.Lawful fun (left right : List String) =>
        compareCells texts (columns[i]?.getD ⟨"", ""⟩) (cell left i) (cell right i) :=
      (lawful_compareCells _).on _
    rw [rowOrder]
    cases descending with
    | false => exact hcells.lex ih
    | true => exact hcells.reverse.lex ih

/-- Where `std::stable_sort` throws. -/
theorem stableSort_eq_none [Std.TransCmp texts.numbers.compare] {columns : List QueryResultColumn}
    {indexes : List (Nat × Bool)} {rows : List (List String)} :
    stableSort (fun left right => rowLess texts columns left right indexes) rows = none ↔
      ¬ rows.Pairwise fun left right => rowOrder texts columns indexes left right ≠ none := by
  have hless : (fun left right => rowLess texts columns left right indexes) =
      PartialSort.lessBy (rowOrder texts columns indexes) := by
    funext left right
    exact rowLess_eq columns indexes left right
  rw [hless, stableSort_eq, PartialSort.sort_eq_none (lawful_rowOrder columns indexes)]

end Texts

end ScratchDb.Select
