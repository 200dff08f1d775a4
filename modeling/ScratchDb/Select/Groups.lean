import ScratchDb.Lib.Grouping
import ScratchDb.Select.Aggregates

/-!
# GROUP BY

`grouped_result` of `src/query/query_executor.cpp` finds the group of a row by a
key that is made of the texts of the row's group columns. Each text is written
behind its length, so that the keys of different tuples differ, and the loop
over the rows builds the groups of the tuples.
-/

namespace ScratchDb.Select

/-! ## Keys -/

/-- One text of a key: its length, a colon, the text and a bar. -/
def keyPart (text : String) : List Char := decimal text.length ++ ':' :: (text.toList ++ ['|'])

theorem toList_rowKey (row : List String) : (rowKey row).toList = row.flatMap keyPart := by
  rw [rowKey, String.toList_join, List.flatMap_map]
  refine congrArg (row.flatMap ·) (funext fun text => ?_)
  simp [keyPart]

theorem keyPart_append_inj {text text' : String} {cs cs' : List Char}
    (h : keyPart text ++ cs = keyPart text' ++ cs') : text = text' ∧ cs = cs' := by
  -- the digits end at the first colon
  have hcut : ∀ (t : String) (rest : List Char),
      DelimitedText.cutAt ':' (decimal t.length ++ ':' :: rest) = some (decimal t.length, rest) := by
    intro t rest
    refine DelimitedText.cutAt_append fun hmem => ?_
    exact absurd (DelimitedText.isDigit_of_mem_toDigits hmem) (by decide)
  have happend : ∀ (t : String) (rest : List Char),
      keyPart t ++ rest = decimal t.length ++ ':' :: (t.toList ++ '|' :: rest) := by
    intro t rest
    simp [keyPart]
  rw [happend, happend] at h
  have hcuts := congrArg (DelimitedText.cutAt ':') h
  rw [hcut, hcut] at hcuts
  obtain ⟨hdecimal, hrest⟩ := Prod.mk.inj (Option.some.inj hcuts)
  have hlength : text.toList.length = text'.toList.length := by
    rw [String.length_toList, String.length_toList]
    rw [← @Nat.ofDigitChars_toDigits 10 text.length (by decide) (by decide),
      ← @Nat.ofDigitChars_toDigits 10 text'.length (by decide) (by decide)]
    exact congrArg (Nat.ofDigitChars 10 · 0) hdecimal
  obtain ⟨htext, hbar⟩ := List.append_inj hrest hlength
  exact ⟨String.toList_inj.mp htext, List.cons.inj hbar |>.2⟩

theorem rowKey_injective : Function.Injective rowKey := by
  intro row row' h
  have hparts : row.flatMap keyPart = row'.flatMap keyPart := by
    rw [← toList_rowKey, ← toList_rowKey, h]
  clear h
  have hne : ∀ (text : String) (cs : List Char), keyPart text ++ cs ≠ [] := by
    intro text cs hnil
    have hdecimal := (List.append_eq_nil_iff.mp (List.append_eq_nil_iff.mp hnil).1).1
    exact Nat.toDigits_ne_nil hdecimal
  induction row generalizing row' with
  | nil =>
    cases row' with
    | nil => rfl
    | cons text row' => exact absurd hparts.symm (hne text _)
  | cons text row ih =>
    cases row' with
    | nil => exact absurd hparts (hne text _)
    | cons text' row' =>
      obtain ⟨rfl, hrest⟩ := keyPart_append_inj hparts
      rw [ih hrest]

/-! ## The groups of the rows -/

/-- The text of a selected column in a row. -/
def columnText (source : QueryResult) (s : SelectedColumn) (row : List String) : String :=
  match resultColumnIndex source s with
  | .found i => cell row i
  | _ => ""

/-- The texts of the group columns. -/
def groupTuple (source : QueryResult) (groupColumns : List SelectedColumn) (row : List String) :
    List String := groupColumns.map fun g => columnText source g row

theorem groupIndexes_ok {source : QueryResult} {groupColumns : List SelectedColumn}
    {indexes : List Nat} (h : groupIndexes source groupColumns = .ok indexes) :
    ∀ row, indexes.map (cell row) = groupTuple source groupColumns row := by
  intro row
  induction groupColumns generalizing indexes with
  | nil =>
    cases h
    rfl
  | cons g groupColumns ih =>
    rw [groupIndexes] at h
    cases hg : resultColumnIndex source g with
    | ambiguous => rw [hg] at h; cases h
    | unknown => rw [hg] at h; cases h
    | found i =>
      rw [hg] at h
      cases hrest : groupIndexes source groupColumns with
      | error e => rw [hrest] at h; cases h
      | ok rest =>
        rw [hrest] at h
        cases h
        rw [List.map_cons, ih hrest, groupTuple, groupTuple, List.map_cons, columnText, hg]

theorem groupIndexes_error {source : QueryResult} {groupColumns : List SelectedColumn} :
    (∃ e, groupIndexes source groupColumns = .error e) ↔ ∃ g ∈ groupColumns, ¬ Resolves source g := by
  induction groupColumns with
  | nil =>
    refine ⟨?_, ?_⟩
    · rintro ⟨e, he⟩
      cases he
    · rintro ⟨g, hg, -⟩
      cases hg
  | cons g groupColumns ih =>
    rw [groupIndexes]
    have hunresolved : ∀ index, resultColumnIndex source g = index →
        (∀ i, index ≠ .found i) → ∃ g' ∈ g :: groupColumns, ¬ Resolves source g' := by
      intro index hindex hne
      refine ⟨g, List.mem_cons_self, ?_⟩
      rintro ⟨i, hi⟩
      exact hne i (hindex.symm.trans hi)
    cases hg : resultColumnIndex source g with
    | ambiguous => exact ⟨fun _ => hunresolved _ hg fun i hi => (by cases hi), fun _ => ⟨_, rfl⟩⟩
    | unknown => exact ⟨fun _ => hunresolved _ hg fun i hi => (by cases hi), fun _ => ⟨_, rfl⟩⟩
    | found i =>
      have hrest : (∃ e, (groupIndexes source groupColumns).map (i :: ·) = .error e) ↔
          ∃ e, groupIndexes source groupColumns = .error e := by
        cases groupIndexes source groupColumns with
        | error e => exact ⟨fun _ => ⟨e, rfl⟩, fun _ => ⟨e, rfl⟩⟩
        | ok indexes =>
          refine ⟨?_, ?_⟩
          · rintro ⟨e, he⟩
            cases he
          · rintro ⟨e, he⟩
            cases he
      show (∃ e, (groupIndexes source groupColumns).map (i :: ·) = .error e) ↔ _
      rw [hrest, ih]
      refine ⟨?_, ?_⟩
      · rintro ⟨g', hg', hnot⟩
        exact ⟨g', List.mem_cons_of_mem g hg', hnot⟩
      · rintro ⟨g', hg', hnot⟩
        rcases List.mem_cons.mp hg' with rfl | hg'
        · exact absurd ⟨i, hg⟩ hnot
        · exact ⟨g', hg', hnot⟩

theorem addToGroups_eq (key : String) (row : List String)
    (groups : List (String × List (List String))) :
    addToGroups key row groups = Grouping.add key row groups := by
  induction groups with
  | nil => rfl
  | cons g groups ih => rw [addToGroups, Grouping.add, ih]

/-- The map of keys and the list of their order hold the groups of the tuples. -/
theorem groupRows_eq {source : QueryResult} {groupColumns : List SelectedColumn}
    {indexes : List Nat} (h : groupIndexes source groupColumns = .ok indexes)
    (rows : List (List String)) :
    groupRows indexes rows =
      (Grouping.groups (groupTuple source groupColumns) rows).map fun g => (rowKey g.1, g.2) := by
  rw [← Grouping.groups_comp rowKey_injective, ← Grouping.foldl_add, groupRows]
  simp only [addToGroups_eq, groupIndexes_ok h, Function.comp]

/-! ## One row of the result -/

theorem exists_of_forall₂ {α β : Type} {R : α → β → Prop} {as : List α} {bs : List β}
    (h : List.Forall₂ R as bs) {a : α} (ha : a ∈ as) : ∃ b ∈ bs, R a b := by
  induction h with
  | nil => cases ha
  | cons hab _ ih =>
    rcases List.mem_cons.mp ha with rfl | ha
    · exact ⟨_, List.mem_cons_self, hab⟩
    · obtain ⟨b, hb, hR⟩ := ih ha
      exact ⟨b, List.mem_cons_of_mem _ hb, hR⟩

theorem eq_map_of_forall₂ {α β : Type} {f : α → β} {as : List α} {bs : List β}
    (h : List.Forall₂ (fun a b => b = f a) as bs) : bs = as.map f := by
  induction h with
  | nil => rfl
  | cons hb _ ih => rw [List.map_cons, hb, ih]

/-- The rows of one group, as `grouped_result` hands them to `aggregate_result`. -/
def groupOf (source : QueryResult) (rows : List (List String)) : QueryResult :=
  { columns := source.columns, rows, rowCount := rows.length,
    columnPositions := source.columnPositions, ambiguousColumns := source.ambiguousColumns }

section Texts

variable {texts : ValueTexts} {source group : QueryResult} {s : SelectedColumn}
  {selected : List SelectedColumn}

theorem aggregateResult_single_none :
    aggregateResult texts group [s] = none ↔ Throws texts group s := by
  rw [← aggregateColumn_eq_none, aggregateResult, aggregateColumns]
  cases aggregateColumn texts group s with
  | none => exact ⟨fun _ => rfl, fun _ => rfl⟩
  | some c =>
    cases c with
    | error e => exact ⟨fun h => (by cases h), fun h => (by cases h)⟩
    | ok c => exact ⟨fun h => (by cases h), fun h => (by cases h)⟩

theorem groupCell_eq_none : groupCell texts group s = none ↔ Throws texts group s := by
  unfold groupCell
  by_cases hnone : s.aggregate = .none
  · rw [if_pos hnone]
    refine ⟨fun h => ?_, fun h => absurd hnone h.2.1⟩
    split at h
    · cases h
    · cases h
    · cases h
  · rw [if_neg hnone, ← aggregateResult_single_none]
    cases hresult : aggregateResult texts group [s] with
    | none => exact ⟨fun _ => rfl, fun _ => rfl⟩
    | some r =>
      refine ⟨fun h => ?_, fun h => (by cases h)⟩
      simp only [Option.bind_eq_bind, Option.bind_some] at h
      split at h
      · cases h
      · cases h

/-- The error of a group's cell, for a column that resolves where it is no aggregate. -/
theorem groupCell_eq_error (hplain : s.aggregate = .none → Resolves group s) :
    (∃ e, groupCell texts group s = some (.error e)) ↔ s.aggregate ≠ .none ∧ Refused group s := by
  unfold groupCell
  by_cases hnone : s.aggregate = .none
  · rw [if_pos hnone]
    obtain ⟨i, hi⟩ := hplain hnone
    rw [hi]
    refine ⟨?_, fun h => absurd hnone h.1⟩
    rintro ⟨e, he⟩
    cases he
  · have hsingle : (∃ r, aggregateResult texts group [s] = some r ∧ r.isOk = false) ↔
        Refused group s := by
      rw [aggregateResult_error, meets_cons]
      exact or_iff_left fun h => not_meets_nil h.2
    rw [if_neg hnone, ← hsingle]
    cases hresult : aggregateResult texts group [s] with
    | none => simp
    | some r => cases herror : r.error with
      | none => simp [QueryResult.isOk, herror]
      | some e => simp [QueryResult.isOk, herror, hnone]

theorem groupCells_eq_none (hplain : ∀ s ∈ selected, s.aggregate = .none → Resolves group s) :
    groupCells texts group selected = none ↔
      Meets (Throws texts group) (fun s => s.aggregate ≠ .none ∧ Refused group s) selected := by
  induction selected with
  | nil => exact ⟨fun h => (by cases h), fun h => absurd h not_meets_nil⟩
  | cons s selected ih =>
    rw [meets_cons, ← ih fun s hs => hplain s (List.mem_cons_of_mem _ hs), ← groupCell_eq_none,
      ← @groupCell_eq_error texts _ _ (hplain s List.mem_cons_self), groupCells]
    cases hcell : groupCell texts group s with
    | none => exact ⟨fun _ => .inl rfl, fun _ => rfl⟩
    | some c =>
      cases c with
      | error e => simp
      | ok text =>
        cases hrest : groupCells texts group selected with
        | none => simp
        | some rest => simp

theorem groupCells_eq_error (hplain : ∀ s ∈ selected, s.aggregate = .none → Resolves group s) :
    (∃ e, groupCells texts group selected = some (.error e)) ↔
      Meets (fun s => s.aggregate ≠ .none ∧ Refused group s) (Throws texts group) selected := by
  induction selected with
  | nil =>
    refine ⟨?_, fun h => absurd h not_meets_nil⟩
    rintro ⟨e, he⟩
    cases he
  | cons s selected ih =>
    rw [meets_cons, ← ih fun s hs => hplain s (List.mem_cons_of_mem _ hs), ← groupCell_eq_none,
      ← @groupCell_eq_error texts _ _ (hplain s List.mem_cons_self), groupCells]
    cases hcell : groupCell texts group s with
    | none => simp
    | some c =>
      cases c with
      | error e => simp
      | ok text =>
        cases hrest : groupCells texts group selected with
        | none => simp
        | some rest =>
          cases rest with
          | error e => simp [Except.map]
          | ok cells => simp [Except.map]

theorem groupCells_ok {row : List String} (h : groupCells texts group selected = some (.ok row)) :
    List.Forall₂ (fun s text => groupCell texts group s = some (.ok text)) selected row := by
  induction selected generalizing row with
  | nil =>
    cases h
    exact .nil
  | cons s selected ih =>
    rw [groupCells] at h
    simp only [Option.bind_eq_bind, Option.bind_eq_some_iff] at h
    obtain ⟨c, hcell, h⟩ := h
    split at h
    · cases h
    · simp only [Option.bind_eq_some_iff] at h
      obtain ⟨rest, hrest, h⟩ := h
      cases rest with
      | error e => cases h
      | ok cells =>
        cases h
        exact .cons hcell (ih hrest)

theorem groupsRows_ok {groups : List (String × List (List String))} {rows : List (List String)}
    (h : groupsRows texts source selected groups = some (.ok rows)) :
    List.Forall₂ (fun g row => groupCells texts (groupOf source g.2) selected = some (.ok row))
      groups rows := by
  induction groups generalizing rows with
  | nil =>
    cases h
    exact .nil
  | cons g groups ih =>
    rw [groupsRows] at h
    simp only [Option.bind_eq_bind, Option.bind_eq_some_iff] at h
    obtain ⟨row, hrow, h⟩ := h
    split at h
    · cases h
    · simp only [Option.bind_eq_some_iff] at h
      obtain ⟨rest, hrest, h⟩ := h
      cases rest with
      | error e => cases h
      | ok rows =>
        cases h
        exact .cons hrow (ih hrest)

/-- Every group has its cells where no aggregate is refused and none throws. -/
theorem groupsRows_exists {groups : List (String × List (List String))}
    (h : ∀ g ∈ groups, ∃ row, groupCells texts (groupOf source g.2) selected = some (.ok row)) :
    ∃ rows, groupsRows texts source selected groups = some (.ok rows) := by
  induction groups with
  | nil => exact ⟨[], rfl⟩
  | cons g groups ih =>
    obtain ⟨row, hrow⟩ := h g List.mem_cons_self
    obtain ⟨rows, hrows⟩ := ih fun g hg => h g (List.mem_cons_of_mem _ hg)
    rw [groupOf] at hrow
    exact ⟨row :: rows, by rw [groupsRows, hrow, hrows]; rfl⟩

/-! ## Errors of groups -/

/-- A group that the columns refuse, for any group with rows they refuse. -/
theorem refused_groupOf {rows rows' : List (List String)} (hrows : rows' ≠ [])
    (h : Refused (groupOf source rows) s) : Refused (groupOf source rows') s := by
  obtain ⟨hcount, h⟩ := h
  refine ⟨hcount, ?_⟩
  rcases h with h | h | ⟨i, hi, -, hrest⟩
  · exact .inl h
  · exact .inr (.inl h)
  · exact .inr (.inr ⟨i, hi, hrows, hrest⟩)

theorem groupsRows_error {groups : List (String × List (List String))} {e : QueryError}
    (h : groupsRows texts source selected groups = some (.error e)) :
    ∃ g ∈ groups, groupCells texts (groupOf source g.2) selected = some (.error e) := by
  induction groups with
  | nil => cases h
  | cons g groups ih =>
    rw [groupsRows] at h
    simp only [Option.bind_eq_bind, Option.bind_eq_some_iff] at h
    obtain ⟨c, hrow, h⟩ := h
    split at h
    · cases h
      exact ⟨g, List.mem_cons_self, hrow⟩
    · simp only [Option.bind_eq_some_iff] at h
      obtain ⟨rest, hrest, h⟩ := h
      cases rest with
      | ok rows => cases h
      | error e' =>
        cases h
        obtain ⟨g', hg', hcells⟩ := ih hrest
        exact ⟨g', List.mem_cons_of_mem g hg', hcells⟩

/-- A group that has its cells refuses no column. -/
theorem groupCells_ok_not_refused (hplain : ∀ s ∈ selected, s.aggregate = .none → Resolves group s)
    {row : List String} (h : groupCells texts group selected = some (.ok row)) (hs : s ∈ selected)
    (haggregate : s.aggregate ≠ .none) : ¬ Refused group s := by
  intro hrefused
  obtain ⟨e, he⟩ := (@groupCell_eq_error texts _ _ (hplain s hs)).mpr ⟨haggregate, hrefused⟩
  obtain ⟨i, hi, rfl⟩ := List.mem_iff_getElem.mp hs
  have hcells := groupCells_ok h
  have hlength := hcells.length_eq
  have hcell := List.Forall₂.get hcells hi (by omega)
  rw [List.get_eq_getElem, he] at hcell
  cases hcell

/-- Only the first group can be refused. -/
theorem groupsRows_eq_error (hplain : ∀ s ∈ selected, s.aggregate = .none → Resolves source s)
    {groups : List (String × List (List String))} (hgroups : ∀ g ∈ groups, g.2 ≠ []) :
    (∃ e, groupsRows texts source selected groups = some (.error e)) ↔
      ∃ g ∈ groups.head?, Meets (fun s => s.aggregate ≠ .none ∧ Refused (groupOf source g.2) s)
        (Throws texts (groupOf source g.2)) selected := by
  have hcells : ∀ rows : List (List String),
      (∃ e, groupCells texts (groupOf source rows) selected = some (.error e)) ↔ _ :=
    fun rows => groupCells_eq_error hplain
  cases groups with
  | nil =>
    refine ⟨?_, ?_⟩
    · rintro ⟨e, he⟩
      cases he
    · rintro ⟨g, hg, -⟩
      cases hg
  | cons g groups =>
    have hhead : (∃ g' ∈ (g :: groups).head?,
          Meets (fun s => s.aggregate ≠ .none ∧ Refused (groupOf source g'.2) s)
            (Throws texts (groupOf source g'.2)) selected) ↔
        ∃ e, groupCells texts (groupOf source g.2) selected = some (.error e) := by
      rw [hcells]
      simp
    rw [hhead, groupsRows]
    cases hfirst : groupCells texts (groupOf source g.2) selected with
    | none =>
      rw [groupOf] at hfirst
      rw [hfirst]
      simp
    | some c =>
      rw [groupOf] at hfirst
      rw [hfirst]
      cases c with
      | error e => simp
      | ok row =>
        -- a column that a later group refuses is refused in the first one
        have hlater : ∀ e, groupsRows texts source selected groups ≠ some (.error e) := by
          intro e he
          obtain ⟨g', hg', hcellsError⟩ := groupsRows_error he
          obtain ⟨s, hs, haggregate, hrefused⟩ := ((hcells g'.2).mp ⟨e, hcellsError⟩).exists
          exact @groupCells_ok_not_refused texts (groupOf source g.2) s selected hplain row hfirst hs
            haggregate
            (refused_groupOf (hgroups g List.mem_cons_self) hrefused)
        cases hrest : groupsRows texts source selected groups with
        | none => simp
        | some rest =>
          cases rest with
          | error e => exact absurd hrest (hlater e)
          | ok rows => simp [Except.map]

/-! ## The columns of the result -/

theorem groupedColumns_eq_error :
    (∃ e, groupedColumns source selected = .error e) ↔
      ∃ s ∈ selected, ¬ s.CountsRows ∧ ¬ Resolves source s := by
  induction selected with
  | nil =>
    refine ⟨?_, ?_⟩
    · rintro ⟨e, he⟩
      cases he
    · rintro ⟨s, hs, -⟩
      cases hs
  | cons s selected ih =>
    have hmap : ∀ c : QueryResultColumn,
        (∃ e, (groupedColumns source selected).map (c :: ·) = .error e) ↔
          ∃ s ∈ selected, ¬ s.CountsRows ∧ ¬ Resolves source s := by
      intro c
      rw [← ih]
      cases groupedColumns source selected with
      | error e => simp [Except.map]
      | ok columns => simp [Except.map]
    have hcons : ∀ h : s.CountsRows ∨ Resolves source s,
        (∃ s' ∈ s :: selected, ¬ s'.CountsRows ∧ ¬ Resolves source s') ↔
          ∃ s' ∈ selected, ¬ s'.CountsRows ∧ ¬ Resolves source s' := by
      intro h
      rw [List.exists_mem_cons_iff, or_iff_right]
      rintro ⟨hcount, hresolves⟩
      rcases h with h | h
      · exact hcount h
      · exact hresolves h
    rw [groupedColumns]
    by_cases hcount : s.aggregate = .count ∧ s.columnName = "*"
    · rw [if_pos hcount, hcons (.inl hcount)]
      exact hmap _
    · rw [if_neg hcount]
      have hunresolved : ∀ index, resultColumnIndex source s = index → (∀ i, index ≠ .found i) →
          ∃ s' ∈ s :: selected, ¬ s'.CountsRows ∧ ¬ Resolves source s' := by
        intro index hindex hne
        refine ⟨s, List.mem_cons_self, hcount, ?_⟩
        rintro ⟨i, hi⟩
        exact hne i (hindex.symm.trans hi)
      cases hs : resultColumnIndex source s with
      | ambiguous => exact ⟨fun _ => hunresolved _ hs fun i hi => (by cases hi), fun _ => ⟨_, rfl⟩⟩
      | unknown => exact ⟨fun _ => hunresolved _ hs fun i hi => (by cases hi), fun _ => ⟨_, rfl⟩⟩
      | found i =>
        rw [hcons (.inr ⟨i, hs⟩)]
        exact hmap _

/-- Where `grouped_result` has an error: a group column or a selected column does not resolve, a
selected column is not grouped, or an aggregate is refused on the first group. -/
def GroupingRefused (texts : ValueTexts) (source : QueryResult) (q : ParsedQuery) : Prop :=
  (∃ g ∈ q.groupByColumns, ¬ Resolves source g) ∨
  (∃ s ∈ q.selectedColumns, s.aggregate = .none ∧ selectedIsGrouped q.groupByColumns s = false) ∨
  (∃ s ∈ q.selectedColumns, ¬ s.CountsRows ∧ ¬ Resolves source s) ∨
  ∃ row ∈ source.rows.head?,
    let first := groupOf source (source.rows.filter fun r =>
      groupTuple source q.groupByColumns r = groupTuple source q.groupByColumns row)
    Meets (fun s => s.aggregate ≠ .none ∧ Refused first s) (Throws texts first) q.selectedColumns

theorem groupedResult_error {q : ParsedQuery} :
    (∃ r, groupedResult texts source q = some r ∧ r.isOk = false) ↔
      GroupingRefused texts source q := by
  unfold groupedResult GroupingRefused
  cases hindexes : groupIndexes source q.groupByColumns with
  | error e =>
    exact ⟨fun _ => .inl (groupIndexes_error.mp ⟨e, hindexes⟩), fun _ => ⟨failed e, rfl, rfl⟩⟩
  | ok indexes =>
    have hresolve : ¬ ∃ g ∈ q.groupByColumns, ¬ Resolves source g := by
      rw [← groupIndexes_error, hindexes]
      rintro ⟨e, he⟩
      cases he
    rw [or_iff_right hresolve]
    cases hplain : q.selectedColumns.find? fun s =>
        s.aggregate = .none && !selectedIsGrouped q.groupByColumns s with
    | some s =>
      have hs := List.find?_some hplain
      simp only [Bool.and_eq_true, decide_eq_true_eq, Bool.not_eq_true'] at hs
      exact ⟨fun _ => .inl ⟨s, List.mem_of_find?_eq_some hplain, hs⟩, fun _ => ⟨_, rfl, rfl⟩⟩
    | none =>
      have hgrouped : ¬ ∃ s ∈ q.selectedColumns,
          s.aggregate = .none ∧ selectedIsGrouped q.groupByColumns s = false := by
        rintro ⟨s, hs, haggregate, hnot⟩
        have hfind := List.find?_eq_none.mp hplain s hs
        simp [haggregate, hnot] at hfind
      rw [or_iff_right hgrouped]
      cases hcolumns : groupedColumns source q.selectedColumns with
      | error e =>
        exact ⟨fun _ => .inl (groupedColumns_eq_error.mp ⟨e, hcolumns⟩), fun _ => ⟨failed e, rfl, rfl⟩⟩
      | ok columns =>
        have hselected : ¬ ∃ s ∈ q.selectedColumns, ¬ s.CountsRows ∧ ¬ Resolves source s := by
          rw [← groupedColumns_eq_error, hcolumns]
          rintro ⟨e, he⟩
          cases he
        rw [or_iff_right hselected]
        have hresolves : ∀ s ∈ q.selectedColumns, s.aggregate = .none → Resolves source s := by
          intro s hs haggregate
          by_contra hnot
          refine hselected ⟨s, hs, fun hcount => ?_, hnot⟩
          rw [SelectedColumn.CountsRows, haggregate] at hcount
          cases hcount.1
        have hrows : (∃ e, groupsRows texts source q.selectedColumns (groupRows indexes source.rows) =
            some (.error e)) ↔ _ := groupsRows_eq_error hresolves fun g hg => by
          rw [groupRows_eq hindexes, List.mem_map] at hg
          obtain ⟨g', hg', rfl⟩ := hg
          obtain ⟨k, hk, rfl⟩ := List.mem_map.mp hg'
          exact Grouping.members_ne_nil hk
        have hfirst : (∃ g ∈ (groupRows indexes source.rows).head?,
              Meets (fun s => s.aggregate ≠ .none ∧ Refused (groupOf source g.2) s)
                (Throws texts (groupOf source g.2)) q.selectedColumns) ↔
            ∃ row ∈ source.rows.head?,
              let first := groupOf source (source.rows.filter fun r =>
                groupTuple source q.groupByColumns r = groupTuple source q.groupByColumns row)
              Meets (fun s => s.aggregate ≠ .none ∧ Refused first s) (Throws texts first)
                q.selectedColumns := by
          rw [groupRows_eq hindexes, List.head?_map, Grouping.head?_groups]
          cases source.rows.head? with
          | none => simp
          | some row => simp [Grouping.members]
        rw [← hfirst, ← hrows]
        dsimp only
        cases hresult : groupsRows texts source q.selectedColumns (groupRows indexes source.rows) with
        | none => simp
        | some c =>
          cases c with
          | error e => simp [failed, QueryResult.isOk]
          | ok rows =>
            refine ⟨?_, ?_⟩
            · rintro ⟨r, hr, hok⟩
              cases hr
              rw [isOk_setBasicColumnLookup] at hok
              cases hok
            · rintro ⟨e, he⟩
              cases he

/-! ## The row of a group -/

/-- The cell of a group is the first that the aggregate of its column has. -/
theorem groupCell_of_column (hne : s.aggregate ≠ .none) {c : QueryResultColumn × List String}
    (h : aggregateColumn texts group s = some (.ok c)) :
    groupCell texts group s = some (.ok (c.2[0]?.getD "")) := by
  rw [groupCell, if_neg hne, aggregateResult, aggregateColumns, h]
  have hsame := fun r : QueryResult => sameData_setBasicColumnLookup r
  simp [aggregateColumns, Except.map, (hsame _).error, (hsame _).rows, cell]

theorem groupCell_count (hcount : s.CountsRows) :
    groupCell texts group s = some (.ok (String.ofList (decimal group.rows.length))) := by
  have hne : s.aggregate ≠ .none := by
    rw [hcount.1]
    decide
  have hcolumn : ∃ column, aggregateColumn texts group s =
      some (.ok (column, [String.ofList (decimal group.rows.length)])) := by
    rw [SelectedColumn.CountsRows] at hcount
    rw [aggregateColumn, if_neg hne, if_pos hcount]
    exact ⟨_, rfl⟩
  obtain ⟨column, hcolumn⟩ := hcolumn
  rw [groupCell_of_column hne hcolumn]
  rfl

/-- `text` is at least as good as `text'` for `MAX` or `MIN`. -/
def BoundedBy (function : QueryAggregateFunction) (text text' : String) : Prop :=
  if function = .max then text' ≤ text else text ≤ text'

theorem boundedBy_refl (function : QueryAggregateFunction) (text : String) :
    BoundedBy function text text := by
  unfold BoundedBy
  split
  · exact String.le_refl text
  · exact String.le_refl text

theorem BoundedBy.trans {function : QueryAggregateFunction} {a b c : String}
    (hab : BoundedBy function a b) (hbc : BoundedBy function b c) : BoundedBy function a c := by
  unfold BoundedBy at hab hbc ⊢
  split
  · rename_i h
    rw [if_pos h] at hab hbc
    exact String.le_trans hbc hab
  · rename_i h
    rw [if_neg h] at hab hbc
    exact String.le_trans hab hbc

/-- Texts that are no numbers are compared as they are. -/
theorem betterCell_text {column : QueryResultColumn} (hcolumn : isNumeric column = false)
    (function : QueryAggregateFunction) (candidate value : String) :
    ∃ better, betterCell texts column function candidate value = some better ∧
      BoundedBy function (if better then candidate else value) candidate ∧
      BoundedBy function (if better then candidate else value) value := by
  unfold betterCell
  rw [hcolumn]
  refine ⟨_, rfl, ?_⟩
  by_cases h : if function = .max then value < candidate else candidate < value
  · rw [decide_eq_true h]
    refine ⟨boundedBy_refl _ _, ?_⟩
    show BoundedBy function candidate value
    unfold BoundedBy
    split
    · rename_i hmax
      rw [if_pos hmax] at h
      exact String.not_lt.mp (String.lt_asymm h)
    · rename_i hmax
      rw [if_neg hmax] at h
      exact String.not_lt.mp (String.lt_asymm h)
  · rw [decide_eq_false h]
    refine ⟨?_, boundedBy_refl _ _⟩
    show BoundedBy function value candidate
    unfold BoundedBy
    split
    · rename_i hmax
      rw [if_pos hmax] at h
      exact String.not_lt.mp h
    · rename_i hmax
      rw [if_neg hmax] at h
      exact String.not_lt.mp h

/-- The best text is one of those read, and bounds them all. -/
theorem bestCell_text {column : QueryResultColumn} (hcolumn : isNumeric column = false)
    (function : QueryAggregateFunction) (value : String) (cells : List String) :
    ∃ best ∈ value :: cells, bestCell texts column function value cells = some best ∧
      ∀ text ∈ value :: cells, BoundedBy function best text := by
  induction cells generalizing value with
  | nil =>
    refine ⟨value, List.mem_cons_self, rfl, fun text htext => ?_⟩
    rw [List.mem_singleton.mp htext]
    exact boundedBy_refl function value
  | cons candidate cells ih =>
    obtain ⟨better, hbetter, hcandidate, hvalue⟩ :=
      @betterCell_text texts column hcolumn function candidate value
    obtain ⟨best, hmem, hbest, hbound⟩ := ih (if better then candidate else value)
    have hkept := hbound _ List.mem_cons_self
    refine ⟨best, ?_, ?_, fun text htext => ?_⟩
    · rcases List.mem_cons.mp hmem with rfl | hmem
      · split
        · exact List.mem_cons_of_mem _ List.mem_cons_self
        · exact List.mem_cons_self
      · exact List.mem_cons_of_mem _ (List.mem_cons_of_mem _ hmem)
    · rw [bestCell, hbetter]
      exact hbest
    · rcases List.mem_cons.mp htext with rfl | htext
      · exact hkept.trans hvalue
      · rcases List.mem_cons.mp htext with rfl | htext
        · exact hkept.trans hcandidate
        · exact hbound text (List.mem_cons_of_mem _ htext)

theorem groupCell_best (hfunction : s.aggregate = .max ∨ s.aggregate = .min) {i : Nat}
    (hindex : resultColumnIndex group s = .found i) (hcolumn : isNumeric (columnOf group i) = false)
    (hrows : group.rows ≠ []) :
    ∃ best ∈ group.rows.map (cell · i), groupCell texts group s = some (.ok best) ∧
      ∀ text ∈ group.rows.map (cell · i), BoundedBy s.aggregate best text := by
  have hne : s.aggregate ≠ .none := by
    rcases hfunction with h | h <;> rw [h] <;> decide
  have hcount : ¬ (s.aggregate = .count ∧ s.columnName = "*") := by
    rcases hfunction with h | h <;> rw [h] <;> exact fun hc => absurd hc.1 (by decide)
  obtain ⟨row, rows, hcons⟩ := List.exists_cons_of_ne_nil hrows
  obtain ⟨best, hmem, hbest, hbound⟩ := @bestCell_text texts (columnOf group i) hcolumn s.aggregate
    (cell row i) (group.rows.map (cell · i))
  have hsame : ∀ text, text ∈ cell row i :: group.rows.map (cell · i) →
      text ∈ group.rows.map (cell · i) := by
    intro text htext
    rcases List.mem_cons.mp htext with rfl | htext
    · exact List.mem_map.mpr ⟨row, by rw [hcons]; exact List.mem_cons_self, rfl⟩
    · exact htext
  refine ⟨best, hsame best hmem, ?_, fun text htext => hbound text (List.mem_cons_of_mem _ htext)⟩
  have hcell : aggregateCell texts (columnOf group i) s (group.rows.map (cell · i)) =
      some (.ok [best]) := by
    rw [hcons, List.map_cons] at hbest ⊢
    rw [aggregateCell, if_pos hfunction, hbest]
    rfl
  have hbestColumn : aggregateColumn texts group s =
      some (.ok (⟨if s.columnAlias = "" then s.aggregate.name else s.columnAlias,
        (columnOf group i).type⟩, [best])) := by
    rw [aggregateColumn, if_neg hne, if_neg hcount, hindex]
    dsimp only
    rw [hcell]
    rfl
  rw [groupCell_of_column hne hbestColumn]
  rfl

theorem groupCell_plain (haggregate : s.aggregate = .none) (hresolves : Resolves group s) :
    groupCell texts group s = some (.ok (columnText group s (group.rows.headD []))) := by
  obtain ⟨i, hi⟩ := hresolves
  rw [groupCell, if_pos haggregate, columnText, hi]
  rfl

/-- What the row of a result says of the rows of its group, column by column. -/
structure GroupRow (source : QueryResult) (selected : List SelectedColumn)
    (members : List (List String)) (row : List String) : Prop where
  length : row.length = selected.length
  count : ∀ (j : Nat) (s : SelectedColumn), selected[j]? = some s → s.CountsRows →
    row[j]? = some (String.ofList (decimal members.length))
  best : ∀ (j : Nat) (s : SelectedColumn) (i : Nat), selected[j]? = some s →
    (s.aggregate = .max ∨ s.aggregate = .min) → resultColumnIndex source s = .found i → isNumeric (columnOf source i) = false →
    ∃ best ∈ members.map (cell · i), row[j]? = some best ∧
      ∀ text ∈ members.map (cell · i), BoundedBy s.aggregate best text
  plain : ∀ (j : Nat) (s : SelectedColumn), selected[j]? = some s → s.aggregate = .none →
    ∀ member ∈ members, row[j]? = some (columnText source s member)

/-- A column that is grouped has one text in a group. -/
theorem columnText_of_tuple {groupColumns : List SelectedColumn} {row row' : List String}
    (hs : selectedIsGrouped groupColumns s = true)
    (h : groupTuple source groupColumns row = groupTuple source groupColumns row') :
    columnText source s row = columnText source s row' := by
  obtain ⟨g, hg, hsame⟩ := List.any_eq_true.mp hs
  simp only [Bool.and_eq_true, decide_eq_true_eq] at hsame
  have hindex : resultColumnIndex source s = resultColumnIndex source g := by
    rw [resultColumnIndex, resultColumnIndex, hsame.1, hsame.2]
  have htext := List.map_inj_left.mp h g hg
  rw [columnText, columnText] at htext ⊢
  rw [hindex]
  exact htext

theorem groupRow_of_cells {groupColumns : List SelectedColumn} {members : List (List String)}
    {row tuple : List String} (hmembers : members ≠ [])
    (htuple : ∀ member ∈ members, groupTuple source groupColumns member = tuple)
    (hplain : ∀ s ∈ selected, s.aggregate = .none →
      selectedIsGrouped groupColumns s = true ∧ Resolves source s)
    (h : groupCells texts (groupOf source members) selected = some (.ok row)) :
    GroupRow source selected members row := by
  have hcells := groupCells_ok h
  have hat : ∀ {j : Nat} {s : SelectedColumn} {text : String}, selected[j]? = some s →
      groupCell texts (groupOf source members) s = some (.ok text) → row[j]? = some text := by
    intro j s text hs hcell
    obtain ⟨hj, rfl⟩ := List.getElem?_eq_some_iff.mp hs
    have hlength := hcells.length_eq
    have hrow := List.Forall₂.get hcells hj (by omega)
    rw [List.get_eq_getElem, List.get_eq_getElem, hcell] at hrow
    rw [List.getElem?_eq_getElem (by omega)]
    exact congrArg some (Except.ok.inj (Option.some.inj hrow)).symm
  refine ⟨hcells.length_eq.symm, ?_, ?_, ?_⟩
  · intro j s hs hcount
    exact hat hs (groupCell_count hcount)
  · intro j s i hs hfunction hindex hcolumn
    obtain ⟨best, hmem, hbest, hbound⟩ :=
      @groupCell_best texts (groupOf source members) s hfunction i hindex hcolumn hmembers
    exact ⟨best, hmem, hat hs hbest, hbound⟩
  · intro j s hs haggregate member hmember
    obtain ⟨hgrouped, hresolves⟩ := hplain s (List.mem_of_getElem? hs) haggregate
    rw [hat hs (@groupCell_plain texts (groupOf source members) s haggregate hresolves)]
    -- the cell is read in the first row of the group
    obtain ⟨first, rest, hcons⟩ := List.exists_cons_of_ne_nil hmembers
    have hfirst : (groupOf source members).rows.headD [] = first := by
      show members.headD [] = first
      rw [hcons]
      rfl
    rw [hfirst]
    refine congrArg some (@columnText_of_tuple source s _ _ _ hgrouped ?_)
    rw [htuple first (by rw [hcons]; exact List.mem_cons_self), htuple member hmember]

/-- What `grouped_result` has when it succeeds. -/
theorem groupedResult_ok {q : ParsedQuery} {r : QueryResult}
    (h : groupedResult texts source q = some r) (hok : r.isOk = true) :
    ∃ indexes, groupIndexes source q.groupByColumns = .ok indexes ∧
      (∀ s ∈ q.selectedColumns, s.aggregate = .none →
        selectedIsGrouped q.groupByColumns s = true ∧ Resolves source s) ∧
      groupsRows texts source q.selectedColumns (groupRows indexes source.rows) =
        some (.ok r.rows) ∧
      groupedColumns source q.selectedColumns = .ok r.columns ∧
      r = QueryResult.setBasicColumnLookup
        { columns := r.columns, rows := r.rows, rowCount := r.rows.length } := by
  unfold groupedResult at h
  cases hindexes : groupIndexes source q.groupByColumns with
  | error e =>
    rw [hindexes] at h
    cases h
    cases hok
  | ok indexes =>
    rw [hindexes] at h
    dsimp only at h
    cases hplain : q.selectedColumns.find? fun s =>
        s.aggregate = .none && !selectedIsGrouped q.groupByColumns s with
    | some s =>
      rw [hplain] at h
      cases h
      cases hok
    | none =>
      rw [hplain] at h
      dsimp only at h
      cases hcolumns : groupedColumns source q.selectedColumns with
      | error e =>
        rw [hcolumns] at h
        cases h
        cases hok
      | ok columns =>
        rw [hcolumns] at h
        simp only [Option.bind_eq_bind, Option.bind_eq_some_iff] at h
        obtain ⟨c, hrows, h⟩ := h
        cases c with
        | error e =>
          cases h
          cases hok
        | ok rows =>
          cases h
          obtain ⟨hsameColumns, hsameRows, -, -⟩ := sameData_setBasicColumnLookup
            { columns, rows, rowCount := rows.length : QueryResult }
          refine ⟨indexes, rfl, fun s hs haggregate => ⟨?_, ?_⟩, ?_, ?_, ?_⟩
          · have hfind := List.find?_eq_none.mp hplain s hs
            simpa [haggregate] using hfind
          · by_contra hnot
            have herror := groupedColumns_eq_error.mpr ⟨s, hs, fun hcount => ?_, hnot⟩
            · obtain ⟨e, he⟩ := herror
              rw [hcolumns] at he
              cases he
            · rw [SelectedColumn.CountsRows, haggregate] at hcount
              cases hcount.1
          · rw [hsameRows]
            exact hrows
          · rw [hsameColumns]
          · rw [hsameRows, hsameColumns]

/-- The rows of a grouped result are the rows of its groups. -/
theorem groupedResult_rows {q : ParsedQuery} {r : QueryResult}
    (h : groupedResult texts source q = some r) (hok : r.isOk = true) :
    List.Forall₂
      (fun tuple row => GroupRow source q.selectedColumns
        (Grouping.members (groupTuple source q.groupByColumns) source.rows tuple) row)
      (Grouping.firstKeys (groupTuple source q.groupByColumns) source.rows) r.rows := by
  obtain ⟨indexes, hindexes, hplain, hrows, -, -⟩ := groupedResult_ok h hok
  have hcells := groupsRows_ok hrows
  rw [groupRows_eq hindexes, Grouping.groups, List.map_map, List.forall₂_map_left_iff] at hcells
  have hmembers := (List.forall₂_and_left _ _).mpr
    ⟨fun tuple (htuple : tuple ∈ Grouping.firstKeys _ source.rows) => htuple, hcells⟩
  refine hmembers.imp fun tuple row hrow => ?_
  exact groupRow_of_cells (Grouping.members_ne_nil hrow.1)
    (fun member hmember => (Grouping.mem_members.mp hmember).2) hplain hrow.2

/-- A grouped column, `COUNT(*)`, or `MAX` or `MIN` of a column that is not numeric. -/
def PlainColumn (source : QueryResult) (groupColumns : List SelectedColumn) (s : SelectedColumn) : Prop :=
  s.aggregate = .none ∧ selectedIsGrouped groupColumns s = true ∨ s.CountsRows ∨
    (s.aggregate = .max ∨ s.aggregate = .min) ∧
      ∃ i, resultColumnIndex source s = .found i ∧ isNumeric (columnOf source i) = false

theorem resolves_of_grouped {groupColumns : List SelectedColumn}
    (hgroups : ∀ g ∈ groupColumns, Resolves source g)
    (hs : selectedIsGrouped groupColumns s = true) : Resolves source s := by
  obtain ⟨g, hg, hsame⟩ := List.any_eq_true.mp hs
  simp only [Bool.and_eq_true, decide_eq_true_eq] at hsame
  obtain ⟨i, hi⟩ := hgroups g hg
  refine ⟨i, ?_⟩
  rw [← hi, resultColumnIndex, resultColumnIndex, hsame.1, hsame.2]

/-- Such columns have their cell in every group. -/
theorem groupCell_of_plain {groupColumns : List SelectedColumn} {members : List (List String)}
    (hgroups : ∀ g ∈ groupColumns, Resolves source g) (hs : PlainColumn source groupColumns s)
    (hmembers : members ≠ []) :
    ∃ text, groupCell texts (groupOf source members) s = some (.ok text) := by
  rcases hs with ⟨haggregate, hgrouped⟩ | hcount | ⟨hfunction, i, hindex, hcolumn⟩
  · exact ⟨_, @groupCell_plain texts (groupOf source members) s haggregate
      (resolves_of_grouped hgroups hgrouped)⟩
  · exact ⟨_, groupCell_count hcount⟩
  · obtain ⟨best, -, hbest, -⟩ :=
      @groupCell_best texts (groupOf source members) s hfunction i hindex hcolumn hmembers
    exact ⟨best, hbest⟩

theorem groupCells_exists (h : ∀ s ∈ selected, ∃ text, groupCell texts group s = some (.ok text)) :
    ∃ row, groupCells texts group selected = some (.ok row) := by
  induction selected with
  | nil => exact ⟨[], rfl⟩
  | cons s selected ih =>
    obtain ⟨text, htext⟩ := h s List.mem_cons_self
    obtain ⟨row, hrow⟩ := ih fun s hs => h s (List.mem_cons_of_mem _ hs)
    refine ⟨text :: row, ?_⟩
    rw [groupCells, htext]
    dsimp only [Option.bind_eq_bind, Option.bind_some]
    rw [hrow]
    rfl

/-- `grouped_result` succeeds on grouped columns, `COUNT(*)`, and `MAX` and `MIN` of texts. -/
theorem groupedResult_succeeds {q : ParsedQuery} (hgroups : ∀ g ∈ q.groupByColumns, Resolves source g)
    (hselected : ∀ s ∈ q.selectedColumns, PlainColumn source q.groupByColumns s) :
    ∃ r, groupedResult texts source q = some r ∧ r.isOk = true := by
  cases hindexes : groupIndexes source q.groupByColumns with
  | error e =>
    obtain ⟨g, hg, hnot⟩ := groupIndexes_error.mp ⟨e, hindexes⟩
    exact absurd (hgroups g hg) hnot
  | ok indexes =>
    have hplain : (q.selectedColumns.find? fun s =>
        s.aggregate = .none && !selectedIsGrouped q.groupByColumns s) = none := by
      refine List.find?_eq_none.mpr fun s hs => ?_
      rcases hselected s hs with ⟨-, hgrouped⟩ | hcount | ⟨hfunction, -⟩
      · simp [hgrouped]
      · simp [hcount.1]
      · rcases hfunction with h | h <;> simp [h]
    cases hcolumns : groupedColumns source q.selectedColumns with
    | error e =>
      obtain ⟨s, hs, hcount, hnot⟩ := groupedColumns_eq_error.mp ⟨e, hcolumns⟩
      rcases hselected s hs with ⟨-, hgrouped⟩ | hcounts | ⟨-, i, hindex, -⟩
      · exact absurd (resolves_of_grouped hgroups hgrouped) hnot
      · exact absurd hcounts hcount
      · exact absurd ⟨i, hindex⟩ hnot
    | ok columns =>
      obtain ⟨rows, hrows⟩ := @groupsRows_exists texts source q.selectedColumns
        (groupRows indexes source.rows) fun g hg => by
          rw [groupRows_eq hindexes, List.mem_map] at hg
          obtain ⟨g', hg', rfl⟩ := hg
          obtain ⟨tuple, htuple, rfl⟩ := List.mem_map.mp hg'
          exact groupCells_exists fun s hs =>
            groupCell_of_plain hgroups (hselected s hs) (Grouping.members_ne_nil htuple)
      have hresult : groupedResult texts source q =
          some (QueryResult.setBasicColumnLookup { columns, rows, rowCount := rows.length }) := by
        unfold groupedResult
        rw [hindexes]
        dsimp only
        rw [hplain]
        dsimp only
        rw [hcolumns]
        dsimp only
        rw [hrows]
        rfl
      refine ⟨_, hresult, ?_⟩
      rw [isOk_setBasicColumnLookup]
      rfl

/-- A result with a column of names and one of numbers. -/
def pairs : QueryResult :=
  QueryResult.setBasicColumnLookup
    { columns := [⟨"name", "varstring"⟩, ⟨"n", "integer"⟩]
      rows := [["b", "1"], ["a", "2"], ["b", "3"]]
      rowCount := 3 }

/-- `SELECT name, COUNT(*), MAX(name) FROM pairs GROUP BY name`. -/
def byName : ParsedQuery :=
  { ParsedQuery.allOf "pairs" with
    selectAll := false
    selectedColumns := [{ columnName := "name" }, { columnName := "*", aggregate := .count },
      { columnName := "name", aggregate := .max }]
    groupByColumns := [{ columnName := "name" }] }

end Texts

end ScratchDb.Select
