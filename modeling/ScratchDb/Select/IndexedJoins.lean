import ScratchDb.Indexes.IndexKey
import ScratchDb.Lib.NestedLoop
import ScratchDb.Select.Joins

/-!
# Joins with and without an index

The rows of `execute_join` where an index offers the rows of the right table, and
where every row is tried. With the column of the left table on the left of the
`=` both are the same. With the columns the other way round the index still
finds the rows with the same key, but the condition does not compare these
columns.
-/

namespace ScratchDb.Select

/-! ## Stored tables -/

/-- A value that a column can store. -/
def ValidIn (v : Value) (column : Column) : Prop := v.matchesColumn column = true ∧ v.Representable

/-- A table as the storage holds it: what a scan hands over, and what `IndexFile::find` gives for
the keys of its indexes. -/
structure JoinedTable where
  schema : Schema
  rows : List TableRow
  find : IndexDefinition → Bytes → List RecordId
  valid : ∀ row ∈ rows, List.Forall₂ ValidIn row.values schema.columns
  distinctIds : (rows.map (·.recordId)).Nodup
  foundOnce : ∀ index key, (find index key).Nodup

namespace JoinedTable

def value (t : JoinedTable) (row : TableRow) (columnName : String) : Option Value :=
  (t.schema.columnIndex columnName).bind fun i => row.values[i]?

def readRow (t : JoinedTable) (recordId : RecordId) : Option TableRow :=
  t.rows.find? (·.recordId = recordId)

/-- `Database::find_rows_by_index`. -/
def findRowsByIndex (t : JoinedTable) (columnName : String) (value : Value) :
    Option (List TableRow) := do
  let column ← t.schema.findColumn columnName
  let index ← t.schema.indexes.find? (·.columns = [columnName])
  let key ← makeIndexKey column value
  if t.schema.storageMode = .memory then
    pure (t.rows.filter fun row => ((t.value row columnName).bind (makeIndexKey column)) = some key)
  else pure ((t.find index key).filterMap t.readRow)

/-- The rows of a key are found through every index. -/
def Mirrored (t : JoinedTable) : Prop :=
  ∀ index ∈ t.schema.indexes, ∀ columnName, index.columns = [columnName] → ∀ row ∈ t.rows, ∀ v,
    t.value row columnName = some v → row.recordId ∈ t.find index v.keyBytes

theorem nodup_rows (t : JoinedTable) : t.rows.Nodup := .of_map _ t.distinctIds

theorem readRow_eq_some {t : JoinedTable} {recordId : RecordId} {row : TableRow}
    (h : t.readRow recordId = some row) : row ∈ t.rows ∧ row.recordId = recordId :=
  ⟨List.mem_of_find?_eq_some h, by simpa using List.find?_some h⟩

theorem readRow_of_mem {t : JoinedTable} {row : TableRow} (h : row ∈ t.rows) :
    t.readRow row.recordId = some row := by
  cases hread : t.readRow row.recordId with
  | none => exact absurd (List.find?_eq_none.mp hread row h) (by simp)
  | some row' =>
    obtain ⟨hmem, hid⟩ := readRow_eq_some hread
    rw [List.inj_on_of_nodup_map t.distinctIds hmem h hid]

/-- An index offers rows of the table, each once. -/
theorem findRowsByIndex_subperm {t : JoinedTable} {columnName : String} {value : Value}
    {rows : List TableRow} (h : t.findRowsByIndex columnName value = some rows) :
    rows.Subperm t.rows := by
  simp only [findRowsByIndex, Option.bind_eq_bind, Option.bind_eq_some_iff] at h
  obtain ⟨column, -, index, -, key, -, hrows⟩ := h
  split at hrows
  · cases hrows
    exact List.filter_sublist.subperm
  · cases hrows
    refine List.Nodup.subperm (List.Nodup.filterMap ?_ (t.foundOnce index key)) ?_
    · intro id id' row hrow hrow'
      rw [← (readRow_eq_some hrow).2, ← (readRow_eq_some hrow').2]
    · intro row hrow
      obtain ⟨id, -, hread⟩ := List.mem_filterMap.mp hrow
      exact (readRow_eq_some hread).1

/-- Every row with the key of the value is offered. -/
theorem mem_findRowsByIndex {t : JoinedTable} (hmirrored : t.Mirrored) {columnName : String}
    {column : Column} {value stored : Value} {row : TableRow} {rows : List TableRow}
    (hcolumn : t.schema.findColumn columnName = some column)
    (h : t.findRowsByIndex columnName value = some rows) (hrow : row ∈ t.rows)
    (hstored : t.value row columnName = some stored) (hvalid : ValidIn stored column)
    (hrepresentable : value.Representable) (heq : Value.compareValues value stored = .eq) :
    row ∈ rows := by
  simp only [findRowsByIndex, Option.bind_eq_bind, Option.bind_eq_some_iff] at h
  obtain ⟨column', hcolumn', index, hindex, key, hkey, hrows⟩ := h
  rw [hcolumn] at hcolumn'
  cases hcolumn'
  rw [makeIndexKey_eq] at hkey
  split at hkey
  · rename_i hmatches
    cases hkey
    have hkeys : value.keyBytes = stored.keyBytes :=
      (keyBytes_eq_iff hrepresentable hvalid.2 hmatches hvalid.1).mpr heq
    have hcolumns : index.columns = [columnName] := by simpa using List.find?_some hindex
    split at hrows
    · cases hrows
      refine List.mem_filter.mpr ⟨hrow, ?_⟩
      rw [hstored]
      exact decide_eq_true ⟨stored, rfl, by rw [makeIndexKey_eq, if_pos hvalid.1, hkeys]⟩
    · cases hrows
      refine List.mem_filterMap.mpr ⟨row.recordId, ?_, readRow_of_mem hrow⟩
      rw [hkeys]
      exact hmirrored index (List.mem_of_find?_eq_some hindex) columnName hcolumns row hrow stored hstored
  · cases hkey

end JoinedTable

/-- The environment of a statement on stored tables. -/
def storedEnv (texts : ValueTexts) (command : String) (tables : String → Option JoinedTable) :
    SelectEnv where
  texts := texts
  command := command
  loadSchema name := (tables name).map (·.schema)
  scanRows name := (((tables name).map (·.rows)).getD [], (tables name).isSome)
  findRowsByIndex name columnName value := (tables name).bind fun t => t.findRowsByIndex columnName value

/-- Without an index nothing is found through one. -/
def SelectEnv.withoutIndexes (env : SelectEnv) : SelectEnv :=
  { env with findRowsByIndex := fun _ _ _ => none }

/-! ## The rows of a join -/

section Rows

variable (env : SelectEnv) (state : JoinState) (join : QueryJoin) (right : RightTable)

def pairFails (leftRow rightRow : TableRow) : Bool :=
  match includesRow env state join right leftRow rightRow with
  | .ok _ => false
  | .error _ => true

def pairMatches (leftRow rightRow : TableRow) : Bool :=
  match includesRow env state join right leftRow rightRow with
  | .ok included => included
  | .error _ => false

def combinedRow (leftRow rightRow : TableRow) : TableRow :=
  { leftRow with values := combinedValues state join right leftRow rightRow }

/-- The row of a left row without a match. -/
def paddedRow (leftRow : TableRow) : Option TableRow :=
  if join.type = .left then
    some { leftRow with
      values := leftRow.values ++ right.addedColumns.map fun _ => Value.null }
  else none

theorem matchedRows_ok {leftRow : TableRow} {candidates : List TableRow}
    (h : ∀ r ∈ candidates, pairFails env state join right leftRow r = false) :
    matchedRows env state join right leftRow candidates =
      .ok ((candidates.filter (pairMatches env state join right leftRow)).map
        (combinedRow state join right leftRow)) := by
  induction candidates with
  | nil => rfl
  | cons r candidates ih =>
    have hr := h r List.mem_cons_self
    have hrest := ih fun q hq => h q (List.mem_cons_of_mem r hq)
    unfold pairFails at hr
    cases hincluded : includesRow env state join right leftRow r with
    | error e =>
      rw [hincluded] at hr
      cases hr
    | ok included =>
      have hmatches : pairMatches env state join right leftRow r = included := by
        rw [pairMatches, hincluded]
      rw [matchedRows, hincluded, hrest]
      cases included with
      | true =>
        rw [List.filter_cons_of_pos hmatches]
        rfl
      | false =>
        rw [List.filter_cons_of_neg (by simp [hmatches])]
        rfl

theorem matchedRows_error {leftRow : TableRow} {candidates : List TableRow}
    (h : ∃ r ∈ candidates, pairFails env state join right leftRow r = true) :
    ∃ e, matchedRows env state join right leftRow candidates = .error e := by
  induction candidates with
  | nil => simp at h
  | cons r candidates ih =>
    cases hincluded : includesRow env state join right leftRow r with
    | error e => exact ⟨e, by rw [matchedRows, hincluded]; rfl⟩
    | ok included =>
      obtain ⟨q, hq, hfails⟩ := h
      rcases List.mem_cons.mp hq with rfl | hq
      · rw [pairFails, hincluded] at hfails
        cases hfails
      · obtain ⟨e, he⟩ := ih ⟨q, hq, hfails⟩
        exact ⟨e, by rw [matchedRows, hincluded, he]; rfl⟩

theorem joinRows_ok {rows : List TableRow}
    (h : ∀ l ∈ rows, ∀ r ∈ candidateRows env state join right l,
      pairFails env state join right l r = false) :
    joinRows env state join right rows =
      .ok (NestedLoop.loop (pairMatches env state join right) (combinedRow state join right)
        (paddedRow join right) (candidateRows env state join right) rows) := by
  induction rows with
  | nil => rfl
  | cons l rows ih =>
    have hrest := ih fun q hq => h q (List.mem_cons_of_mem l hq)
    rw [joinRows, matchedRows_ok env state join right (h l List.mem_cons_self), hrest]
    rw [NestedLoop.loop, NestedLoop.loop, List.flatMap_cons, NestedLoop.rowsFor]
    cases hfilter : (candidateRows env state join right l).filter
        (pairMatches env state join right l) with
    | nil =>
      by_cases hleft : join.type = .left
      · rw [paddedRow, if_pos hleft]
        simp [hleft, bind, Except.bind, pure, Except.pure]
      · rw [paddedRow, if_neg hleft]
        simp [hleft, bind, Except.bind, pure, Except.pure]
    | cons r rs => simp [bind, Except.bind, pure, Except.pure]

theorem joinRows_error {rows : List TableRow}
    (h : ∃ l ∈ rows, ∃ r ∈ candidateRows env state join right l,
      pairFails env state join right l r = true) :
    ∃ e, joinRows env state join right rows = .error e := by
  induction rows with
  | nil => simp at h
  | cons l rows ih =>
    cases hmatched : matchedRows env state join right l (candidateRows env state join right l) with
    | error e => exact ⟨e, by rw [joinRows, hmatched]; rfl⟩
    | ok matched =>
      obtain ⟨q, hq, r, hr, hfails⟩ := h
      rcases List.mem_cons.mp hq with rfl | hq
      · obtain ⟨e, he⟩ := matchedRows_error env state join right ⟨r, hr, hfails⟩
        rw [he] at hmatched
        cases hmatched
      · obtain ⟨e, he⟩ := ih ⟨q, hq, r, hr, hfails⟩
        exact ⟨e, by rw [joinRows, hmatched, he]; rfl⟩

end Rows

end ScratchDb.Select
