import ScratchDb.Lib.FirstOccurrences
import ScratchDb.Select.Groups

/-!
# UNION and INTERSECT

`union_results` and `intersect_results` of `src/query/query_executor.cpp` tell
rows apart by their keys. As the keys of different rows differ, the loops remove
duplicates and take common parts of the lists of rows themselves.
-/

namespace ScratchDb.Select

open FirstOccurrences

/-! ## What the loops compute -/

theorem distinctRows_eq (seen : List String) (rows : List (List String)) :
    distinctRows seen rows = (rows.filter fun row => rowKey row ∉ seen).eraseDups := by
  induction rows generalizing seen with
  | nil => rfl
  | cons row rows ih =>
    rw [distinctRows]
    split
    · rename_i hseen
      rw [ih, List.filter_cons_of_neg (by simpa using hseen)]
    · rename_i hnew
      rw [ih, List.filter_cons_of_pos (by simpa using hnew), List.eraseDups_cons,
        List.filter_filter]
      refine congrArg (fun rows => row :: rows.eraseDups) (List.filter_congr fun row' _ => ?_)
      -- another row has another key
      have hkey : rowKey row' = rowKey row ↔ row' = row := rowKey_injective.eq_iff
      rw [Bool.eq_iff_iff]
      simp [hkey]

theorem commonRows_all (right : List (List String)) (seen : List String)
    (left : List (List String)) :
    commonRows .all (right.map rowKey) seen left = left.bagInter right := by
  induction left generalizing right with
  | nil => cases right <;> rfl
  | cons row left ih =>
    rw [commonRows, cons_bagInter]
    have hmem : rowKey row ∈ right.map rowKey ↔ row ∈ right :=
      List.mem_map_of_injective rowKey_injective
    by_cases h : row ∈ right
    · rw [if_pos (hmem.mpr h), if_pos h, ← List.map_erase rowKey_injective, ih]
    · rw [if_neg fun hkey => h (hmem.mp hkey), if_neg h, ih]

theorem commonRows_some (keys seen : List String) (left : List (List String)) :
    commonRows .some keys seen left = distinctRows seen (left.filter fun row => rowKey row ∈ keys) := by
  induction left generalizing seen with
  | nil => rfl
  | cons row left ih =>
    rw [commonRows]
    split
    · rename_i hkey
      rw [List.filter_cons_of_pos (by simpa using hkey), distinctRows]
      split
      · exact ih seen
      · exact congrArg (row :: ·) (ih _)
    · rename_i hkey
      rw [List.filter_cons_of_neg (by simpa using hkey)]
      exact ih seen

/-! ## Rows with their multiplicities -/

variable (left right : QueryResult)

theorem rows_union : (unionResults left right .some).rows = (left.rows ++ right.rows).eraseDups := by
  show distinctRows [] (left.rows ++ right.rows) = _
  rw [distinctRows_eq, List.filter_eq_self.mpr]
  intro row _
  simp

theorem rows_intersectAll :
    (intersectResults left right .all).rows = left.rows.bagInter right.rows :=
  commonRows_all right.rows [] left.rows

theorem rows_intersect :
    (intersectResults left right .some).rows =
      (left.rows.filter fun row => row ∈ right.rows).eraseDups := by
  show commonRows .some (right.rows.map rowKey) [] left.rows = _
  rw [commonRows_some, distinctRows_eq, List.filter_filter]
  refine congrArg List.eraseDups (List.filter_congr fun row _ => ?_)
  have hmem : rowKey row ∈ right.rows.map rowKey ↔ row ∈ right.rows :=
    List.mem_map_of_injective rowKey_injective
  simp only [hmem]
  simp

theorem keepsFirst_union (quantifier : QuerySetQuantifier) :
    KeepsFirst (left.rows ++ right.rows) (unionResults left right quantifier).rows := by
  cases quantifier with
  | all => exact .refl _
  | some =>
    rw [rows_union]
    exact .eraseDups _

theorem keepsFirst_intersect (quantifier : QuerySetQuantifier) :
    KeepsFirst (left.rows ++ right.rows) (intersectResults left right quantifier).rows := by
  refine KeepsFirst.append_right ?_ right.rows
  cases quantifier with
  | all =>
    rw [rows_intersectAll]
    exact .bagInter _ _
  | some =>
    rw [rows_intersect]
    exact (KeepsFirst.filter _ _).trans (.eraseDups _)

/-- The set operations have the multiplicities of multisets; they keep the rows in the order of
their first occurrences, the left ones before the right ones, and count them. -/
theorem setOperations_multiset :
    (∀ row, (unionResults left right .all).rows.count row =
        left.rows.count row + right.rows.count row) ∧
      (∀ row, (unionResults left right .some).rows.count row =
        if row ∈ left.rows ∨ row ∈ right.rows then 1 else 0) ∧
      (∀ row, (intersectResults left right .all).rows.count row =
        min (left.rows.count row) (right.rows.count row)) ∧
      (∀ row, (intersectResults left right .some).rows.count row =
        if row ∈ left.rows ∧ row ∈ right.rows then 1 else 0) ∧
      ∀ quantifier,
        KeepsFirst (left.rows ++ right.rows) (unionResults left right quantifier).rows ∧
          KeepsFirst (left.rows ++ right.rows) (intersectResults left right quantifier).rows ∧
          (unionResults left right quantifier).rowCount =
            (unionResults left right quantifier).rows.length ∧
          (intersectResults left right quantifier).rowCount =
            (intersectResults left right quantifier).rows.length := by
  refine ⟨fun row => ?_, fun row => ?_, fun row => ?_, fun row => ?_, fun quantifier => ?_⟩
  · exact List.count_append
  · rw [rows_union, count_eraseDups]
    simp only [List.mem_append]
  · rw [rows_intersectAll]
    exact count_bagInter row left.rows right.rows
  · rw [rows_intersect, count_eraseDups]
    simp only [List.mem_filter, decide_eq_true_eq]
  · exact ⟨keepsFirst_union left right quantifier, keepsFirst_intersect left right quantifier,
      rfl, rfl⟩

end ScratchDb.Select
