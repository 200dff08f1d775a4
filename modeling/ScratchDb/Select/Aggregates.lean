import ScratchDb.Select.ColumnLookups

/-!
# What aggregates do to their columns

`aggregate_result` of `src/query/query_executor.cpp` reads the selected columns
from left to right. A column is refused with an error, or `std::stold` throws on
one of its cells, or it gets its cell; which of the three is said here by the
column, its type and its cells alone.
-/

namespace ScratchDb.Select

/-- Some element is `bad` and none before it is an obstacle. -/
def Meets {α : Type} (bad obstacle : α → Prop) (as : List α) : Prop :=
  ∃ before a after, as = before ++ a :: after ∧ bad a ∧ ∀ b ∈ before, ¬ obstacle b

section Meets

variable {α : Type} {bad obstacle : α → Prop} {a : α} {as : List α}

theorem not_meets_nil : ¬ Meets bad obstacle [] := by
  rintro ⟨before, a, after, h, -, -⟩
  cases before <;> cases h

theorem meets_cons : Meets bad obstacle (a :: as) ↔ bad a ∨ ¬ obstacle a ∧ Meets bad obstacle as := by
  constructor
  · rintro ⟨before, b, after, h, hbad, hbefore⟩
    cases before with
    | nil =>
      cases h
      exact .inl hbad
    | cons c before =>
      cases h
      exact .inr ⟨hbefore a List.mem_cons_self, before, b, after, rfl, hbad,
        fun d hd => hbefore d (List.mem_cons_of_mem a hd)⟩
  · intro h
    rcases h with h | ⟨ha, before, b, after, rfl, hbad, hbefore⟩
    · exact ⟨[], a, as, rfl, h, fun b hb => absurd hb List.not_mem_nil⟩
    · refine ⟨a :: before, b, after, rfl, hbad, fun c hc => ?_⟩
      rcases List.mem_cons.mp hc with rfl | hc
      · exact ha
      · exact hbefore c hc

theorem Meets.exists (h : Meets bad obstacle as) : ∃ a ∈ as, bad a := by
  obtain ⟨before, a, after, rfl, hbad, -⟩ := h
  exact ⟨a, List.mem_append_right before List.mem_cons_self, hbad⟩

end Meets

/-- `COUNT(*)`. -/
def SelectedColumn.CountsRows (s : SelectedColumn) : Prop := s.aggregate = .count ∧ s.columnName = "*"

/-- `result_column_index` returns an index. -/
def Resolves (source : QueryResult) (s : SelectedColumn) : Prop :=
  ∃ i, resultColumnIndex source s = .found i

section Texts

variable {texts : ValueTexts}

theorem isOk_setBasicColumnLookup (r : QueryResult) : r.setBasicColumnLookup.isOk = r.isOk :=
  (sameData_setBasicColumnLookup r).isOk

/-! ## The cells of one column -/

variable (texts) in
/-- `std::stold` takes every cell, where the column is one that it is called for. -/
def Converts (column : QueryResultColumn) (cells : List String) : Prop :=
  isNumeric column = true → ∀ text ∈ cells, stold texts text ≠ none

theorem betterCell_eq_none {column : QueryResultColumn} {function : QueryAggregateFunction}
    {candidate value : String} :
    betterCell texts column function candidate value = none ↔
      ¬ Converts texts column [candidate, value] := by
  unfold betterCell Converts
  cases hcolumn : isNumeric column with
  | false => simp
  | true =>
    cases hcandidate : stold texts candidate with
    | none => simp [hcandidate]
    | some c =>
      cases hvalue : stold texts value with
      | none => simp [hvalue]
      | some v => simp [hcandidate, hvalue]

/-- The kept value is always one of the cells that have been read. -/
theorem bestCell_eq_none {column : QueryResultColumn} {function : QueryAggregateFunction}
    {cells : List String} {value : String} (hvalue : Converts texts column [value]) :
    bestCell texts column function value cells = none ↔ ¬ Converts texts column cells := by
  induction cells generalizing value with
  | nil =>
    rw [bestCell]
    simp [Converts]
  | cons candidate cells ih =>
    rw [bestCell]
    cases hbetter : betterCell texts column function candidate value with
    | none =>
      have hnot := betterCell_eq_none.mp hbetter
      refine ⟨fun _ hconverts => hnot fun hcolumn text htext => ?_, fun _ => rfl⟩
      rcases List.mem_cons.mp htext with rfl | htext
      · exact hconverts hcolumn text List.mem_cons_self
      · exact hvalue hcolumn text htext
    | some better =>
      have hboth : Converts texts column [candidate, value] := by
        by_contra hnot
        rw [betterCell_eq_none.mpr hnot] at hbetter
        cases hbetter
      have hnext : Converts texts column [if better then candidate else value] := by
        intro hcolumn text htext
        rw [List.mem_singleton.mp htext]
        split
        · exact hboth hcolumn candidate List.mem_cons_self
        · exact hvalue hcolumn value List.mem_cons_self
      show bestCell texts column function _ cells = none ↔ _
      rw [ih hnext]
      refine not_congr ⟨fun h hcolumn text htext => ?_, fun h hcolumn text htext => ?_⟩
      · rcases List.mem_cons.mp htext with rfl | htext
        · exact hboth hcolumn text List.mem_cons_self
        · exact h hcolumn text htext
      · exact h hcolumn text (List.mem_cons_of_mem candidate htext)

theorem sumCells_eq_none {cells : List String} {sum : texts.numbers.Number} :
    sumCells texts sum cells = none ↔ ∃ text ∈ cells, stold texts text = none := by
  induction cells generalizing sum with
  | nil => simp [sumCells]
  | cons text cells ih =>
    rw [sumCells]
    cases htext : stold texts text with
    | none => simp [htext]
    | some n =>
      show sumCells texts _ cells = none ↔ _
      rw [ih]
      simp [htext]

theorem aggregateCell_eq_none {column : QueryResultColumn} {s : SelectedColumn}
    {cells : List String} :
    aggregateCell texts column s cells = none ↔ ¬ Converts texts column cells := by
  cases cells with
  | nil => simp [aggregateCell, Converts]
  | cons first rest =>
    rw [aggregateCell]
    split
    · -- `MAX` and `MIN` compare the first cell with itself
      have hbest : bestCell texts column s.aggregate first (first :: rest) = none ↔
          ¬ Converts texts column (first :: rest) := by
        by_cases hfirst : Converts texts column [first]
        · exact bestCell_eq_none hfirst
        · have hself : ¬ Converts texts column [first, first] := fun h => hfirst fun hcolumn text htext =>
            h hcolumn text (List.mem_cons_of_mem first htext)
          refine ⟨fun _ h => hfirst fun hcolumn text htext => ?_, fun _ => ?_⟩
          · rw [List.mem_singleton.mp htext]
            exact h hcolumn first List.mem_cons_self
          · rw [bestCell, betterCell_eq_none.mpr hself]
            rfl
      rw [← hbest]
      cases bestCell texts column s.aggregate first (first :: rest) with
      | none => exact ⟨fun _ => rfl, fun _ => rfl⟩
      | some best => exact ⟨fun h => (by cases h), fun h => by cases h⟩
    · split
      · rename_i hcolumn
        refine ⟨fun h => (by cases h), fun h => absurd (fun htrue => ?_) h⟩
        rw [hcolumn] at htrue
        cases htrue
      · rename_i hcolumn
        have hsum : sumCells texts texts.numbers.zero (first :: rest) = none ↔
            ¬ Converts texts column (first :: rest) := by
          rw [sumCells_eq_none]
          have htrue : isNumeric column = true := by simpa using hcolumn
          refine ⟨?_, fun h => ?_⟩
          · rintro ⟨text, htext, hnone⟩ h
            exact h htrue text htext hnone
          · by_contra hall
            exact h fun _ text htext hnone => hall ⟨text, htext, hnone⟩
        rw [← hsum]
        cases sumCells texts texts.numbers.zero (first :: rest) with
        | none => exact ⟨fun _ => rfl, fun _ => rfl⟩
        | some sum =>
          refine ⟨fun h => ?_, fun h => by cases h⟩
          simp only [Option.bind_eq_bind, Option.bind_some] at h
          split at h
          · cases h
          · cases h
          · cases h

theorem aggregateCell_eq_error {column : QueryResultColumn} {s : SelectedColumn}
    {cells : List String} :
    (∃ e, aggregateCell texts column s cells = some (.error e)) ↔
      cells ≠ [] ∧ s.aggregate ≠ .max ∧ s.aggregate ≠ .min ∧ isNumeric column = false := by
  cases cells with
  | nil =>
    refine ⟨?_, fun h => absurd rfl h.1⟩
    rintro ⟨e, he⟩
    cases he
  | cons first rest =>
    rw [aggregateCell]
    split
    · rename_i hbest
      refine ⟨?_, ?_⟩
      · rintro ⟨e, he⟩
        simp only [Option.bind_eq_bind, Option.bind_eq_some_iff] at he
        obtain ⟨best, -, he⟩ := he
        cases he
      · rintro ⟨-, hmax, hmin, -⟩
        rcases hbest with h | h
        · exact absurd h hmax
        · exact absurd h hmin
    · rename_i hbest
      rw [not_or] at hbest
      split
      · rename_i hcolumn
        exact ⟨fun _ => ⟨List.cons_ne_nil first rest, hbest.1, hbest.2, hcolumn⟩, fun _ => ⟨_, rfl⟩⟩
      · rename_i hcolumn
        refine ⟨?_, fun h => absurd h.2.2.2 hcolumn⟩
        rintro ⟨e, he⟩
        simp only [Option.bind_eq_bind, Option.bind_eq_some_iff] at he
        obtain ⟨sum, -, he⟩ := he
        split at he
        · cases he
        · cases he
        · cases he

/-! ## One selected column -/

variable (source : QueryResult) (s : SelectedColumn)

/-- An aggregate of numbers over rows that have none. -/
def NeedsNumbers : Prop :=
  ∃ i, resultColumnIndex source s = .found i ∧ source.rows ≠ [] ∧ s.aggregate ≠ .max ∧
    s.aggregate ≠ .min ∧ isNumeric (columnOf source i) = false

/-- `aggregate_result` has an error for the column. -/
def Refused : Prop :=
  ¬ s.CountsRows ∧ (s.aggregate = .none ∨ ¬ Resolves source s ∨ NeedsNumbers source s)

variable (texts) in
/-- `std::stold` throws on a cell of the column. -/
def Throws : Prop :=
  ¬ s.CountsRows ∧ s.aggregate ≠ .none ∧
    ∃ i, resultColumnIndex source s = .found i ∧
      ¬ Converts texts (columnOf source i) (source.rows.map (cell · i))

variable {source s}

theorem aggregateColumn_eq_none : aggregateColumn texts source s = none ↔ Throws texts source s := by
  unfold aggregateColumn Throws
  by_cases hnone : s.aggregate = .none
  · rw [if_pos hnone]
    refine ⟨fun h => (by cases h), fun h => absurd hnone h.2.1⟩
  · rw [if_neg hnone]
    by_cases hcount : s.aggregate = .count ∧ s.columnName = "*"
    · rw [if_pos hcount]
      refine ⟨fun h => (by cases h), fun h => absurd hcount h.1⟩
    · rw [if_neg hcount]
      cases hindex : resultColumnIndex source s with
      | ambiguous =>
        refine ⟨fun h => (by cases h), ?_⟩
        rintro ⟨-, -, i, hi, -⟩
        cases hi
      | unknown =>
        refine ⟨fun h => (by cases h), ?_⟩
        rintro ⟨-, -, i, hi, -⟩
        cases hi
      | found i =>
        have hcell : aggregateCell texts (columnOf source i) s (source.rows.map (cell · i)) = none ↔
            ¬ Converts texts (columnOf source i) (source.rows.map (cell · i)) :=
          aggregateCell_eq_none
        refine ⟨fun h => ⟨hcount, hnone, i, rfl, hcell.mp ?_⟩, ?_⟩
        · simp only [Option.bind_eq_bind, Option.bind_eq_none_iff] at h
          cases haggregate : aggregateCell texts (columnOf source i) s (source.rows.map (cell · i)) with
          | none => rfl
          | some c => cases h c haggregate
        · rintro ⟨-, -, j, hj, hconverts⟩
          cases hj
          simp only
          rw [hcell.mpr hconverts]
          rfl

theorem aggregateColumn_eq_error :
    (∃ e, aggregateColumn texts source s = some (.error e)) ↔ Refused source s := by
  unfold aggregateColumn Refused
  by_cases hnone : s.aggregate = .none
  · rw [if_pos hnone]
    refine ⟨fun _ => ⟨fun h => ?_, .inl hnone⟩, fun _ => ⟨_, rfl⟩⟩
    rw [SelectedColumn.CountsRows, hnone] at h
    cases h.1
  · rw [if_neg hnone]
    by_cases hcount : s.aggregate = .count ∧ s.columnName = "*"
    · rw [if_pos hcount]
      refine ⟨?_, fun h => absurd hcount h.1⟩
      rintro ⟨e, he⟩
      cases he
    · rw [if_neg hcount]
      cases hindex : resultColumnIndex source s with
      | ambiguous =>
        refine ⟨fun _ => ⟨hcount, .inr (.inl ?_)⟩, fun _ => ⟨_, rfl⟩⟩
        rintro ⟨i, hi⟩
        rw [hindex] at hi
        cases hi
      | unknown =>
        refine ⟨fun _ => ⟨hcount, .inr (.inl ?_)⟩, fun _ => ⟨_, rfl⟩⟩
        rintro ⟨i, hi⟩
        rw [hindex] at hi
        cases hi
      | found i =>
        have hcell : (∃ e, aggregateCell texts (columnOf source i) s (source.rows.map (cell · i)) =
            some (.error e)) ↔ _ := aggregateCell_eq_error
        constructor
        · rintro ⟨e, he⟩
          simp only [Option.bind_eq_bind, Option.bind_eq_some_iff] at he
          obtain ⟨cells, hcells, he⟩ := he
          cases cells with
          | ok cells => cases he
          | error e' =>
            obtain ⟨hrows, hrest⟩ := hcell.mp ⟨e', hcells⟩
            refine ⟨hcount, .inr (.inr ⟨i, hindex, fun h => hrows ?_, hrest⟩)⟩
            rw [h]
            rfl
        · rintro ⟨-, h⟩
          rcases h with h | h | ⟨j, hj, hrows, hrest⟩
          · exact absurd h hnone
          · exact absurd ⟨i, hindex⟩ h
          · rw [hindex] at hj
            cases hj
            obtain ⟨e, he⟩ := hcell.mpr ⟨fun h => hrows (List.map_eq_nil_iff.mp h), hrest⟩
            refine ⟨e, ?_⟩
            simp only
            rw [he]
            rfl

/-! ## All selected columns -/

theorem aggregateColumns_eq_none {selected : List SelectedColumn} :
    aggregateColumns texts source selected = none ↔
      Meets (Throws texts source) (Refused source) selected := by
  induction selected with
  | nil => exact ⟨fun h => (by cases h), fun h => absurd h not_meets_nil⟩
  | cons s selected ih =>
    rw [meets_cons, ← ih, ← aggregateColumn_eq_none, ← @aggregateColumn_eq_error texts, aggregateColumns]
    cases hcolumn : aggregateColumn texts source s with
    | none => exact ⟨fun _ => .inl rfl, fun _ => rfl⟩
    | some c =>
      cases c with
      | error e => simp
      | ok c => cases hrest : aggregateColumns texts source selected with
        | none => simp
        | some rest => simp

theorem aggregateColumns_eq_error {selected : List SelectedColumn} :
    (∃ e, aggregateColumns texts source selected = some (.error e)) ↔
      Meets (Refused source) (Throws texts source) selected := by
  induction selected with
  | nil =>
    refine ⟨?_, fun h => absurd h not_meets_nil⟩
    rintro ⟨e, he⟩
    cases he
  | cons s selected ih =>
    rw [meets_cons, ← ih, ← aggregateColumn_eq_none, ← @aggregateColumn_eq_error texts, aggregateColumns]
    cases hcolumn : aggregateColumn texts source s with
    | none => simp
    | some c =>
      cases c with
      | error e => simp
      | ok c =>
        cases hrest : aggregateColumns texts source selected with
        | none => simp
        | some rest =>
          cases rest with
          | error e => simp [Except.map]
          | ok cs => simp [Except.map]

/-- Where the aggregates of a list of columns fail with an error. -/
theorem aggregateResult_error {selected : List SelectedColumn} :
    (∃ r, aggregateResult texts source selected = some r ∧ r.isOk = false) ↔
      Meets (Refused source) (Throws texts source) selected := by
  rw [← aggregateColumns_eq_error, aggregateResult]
  cases hcolumns : aggregateColumns texts source selected with
  | none =>
    refine ⟨?_, ?_⟩
    · rintro ⟨r, hr, -⟩
      cases hr
    · rintro ⟨e, he⟩
      cases he
  | some cs =>
    cases cs with
    | error e => exact ⟨fun _ => ⟨e, rfl⟩, fun _ => ⟨failed e, rfl, rfl⟩⟩
    | ok cs =>
      refine ⟨?_, ?_⟩
      · rintro ⟨r, hr, hok⟩
        cases hr
        rw [isOk_setBasicColumnLookup] at hok
        cases hok
      · rintro ⟨e, he⟩
        cases he

end Texts

end ScratchDb.Select
