import ScratchDb.Select.JoinedRows

/-!
# LEFT JOIN and RIGHT JOIN

The loop of `execute_join` of `src/query/query_executor.cpp` pads a left row
without a match in a LEFT JOIN. A RIGHT JOIN goes through the same loop and pads
nothing: it is an inner join, and a right row without a match is lost.
-/

namespace ScratchDb.Select

open NestedLoop

section Outer

variable (texts : ValueTexts) (command : String) (tables : String → Option JoinedTable)
  (tableName tableAlias : String) (join : QueryJoin) (left right : JoinedTable)

/-! ## What the joins are for -/

/-- The value of `ON` for a pair of rows. -/
def onResult (l r : TableRow) : Except QueryError Bool :=
  let env := storedEnv texts command tables
  includesRow env (firstState env tableName tableAlias left.schema) join
    (rightTable env join right.schema []) l r

/-- `ON` is true of a pair of rows. -/
def onHolds (l r : TableRow) : Bool :=
  match onResult texts command tables tableName tableAlias join left right l r with
  | .ok matched => matched
  | .error _ => false

/-- `ON` has no error for any pair of rows. -/
def OnEvaluates : Prop :=
  ∀ l ∈ left.rows, ∀ r ∈ right.rows, ∀ e,
    onResult texts command tables tableName tableAlias join left right l r ≠ .error e

/-- A row of NULLs. -/
def nulls (t : JoinedTable) : List Value := t.schema.columns.map fun _ => Value.null

/-- The rows of a LEFT JOIN: each left row with all its matches, or padded. -/
def leftOuterRows : List (List Value) :=
  left.rows.flatMap fun l =>
    let matching := right.rows.filter
      (onHolds texts command tables tableName tableAlias join left right l)
    if matching.isEmpty then [l.values ++ nulls right] else matching.map fun r => l.values ++ r.values

/-- The rows of a RIGHT JOIN: each right row with all its matches, or padded. -/
def rightOuterRows : List (List Value) :=
  right.rows.flatMap fun r =>
    let matching := left.rows.filter fun l =>
      onHolds texts command tables tableName tableAlias join left right l r
    if matching.isEmpty then [nulls left ++ r.values] else matching.map fun l => l.values ++ r.values

/-- The texts of the values of a row. -/
def valueTexts (schema : Schema) (values : List Value) : List String :=
  tableRow texts schema ⟨⟨0, 0⟩, values⟩

/-- The join succeeds and has these rows, in some order. -/
def JoinYields (merged : Schema) (rows : List (List Value)) : Prop :=
  ∃ r, executeJoin (storedEnv texts command tables) tableName tableAlias [join] = some r ∧
    r.isOk = true ∧ r.rows.Perm (rows.map (valueTexts texts merged))

variable {texts command tables tableName tableAlias join left right}

/-! ## The rows of the loop -/

theorem combinedValues_of_ne {state : JoinState} {table : RightTable}
    (htype : join.type ≠ .natural) (l : TableRow) {r : TableRow}
    (hr : r.values.length = table.schema.columns.length) :
    combinedValues state join table l r = l.values ++ r.values := by
  rw [combinedValues]
  refine congrArg (l.values ++ ·) ?_
  have hzip : (r.values.zip table.schema.columns).map (·.1) = r.values := by
    rw [List.map_fst_zip]
    omega
  have hall : ∀ v ∈ r.values.zip table.schema.columns,
      (if join.type = .natural ∧ (state.schema.findColumn v.2.name).isSome then none else some v.1) =
        some v.1 := by
    intro v _
    rw [if_neg fun h => htype h.1]
  rw [List.filterMap_congr hall, List.filterMap_eq_map']
  exact hzip

theorem nulls_addedColumns {current : Schema} {added : List Column} (htype : join.type ≠ .natural)
    (hadded : joinColumnsForRightSide current right.schema join.type = some added) :
    (added.map fun _ => Value.null) = nulls right := by
  have hlength := length_joinColumnsForRightSide hadded
  have hsame := congrArg List.length
    (addedColumns_fst_of_ne htype (columnNames current) right.schema.columns)
  rw [List.length_map] at hsame
  rw [nulls, List.map_const', List.map_const', hlength, hsame]

theorem executeJoin_ok {env : SelectEnv} {schema rightSchema merged : Schema} {added : List Column}
    {rows : List TableRow} (hschema : env.loadSchema tableName = some schema)
    (hright : env.loadSchema join.tableName = some rightSchema)
    (hadded : joinColumnsForRightSide schema rightSchema join.type = some added)
    (hmerged : mergedJoinSchema schema added = some merged)
    (hrows : joinRows env (firstState env tableName tableAlias schema) join
      (rightTable env join rightSchema added) (env.scanRows tableName).1 = .ok rows) :
    ∃ r, executeJoin env tableName tableAlias [join] = some r ∧ r.isOk = true ∧
      r.rows = rows.map (tableRow env.texts merged) := by
  have hresult := executeJoin_single tableAlias hschema hright hadded
  rw [hrows, joinResult, hmerged] at hresult
  exact ⟨_, hresult, (sameData_setJoinColumnLookup _ _).isOk, (sameData_setJoinColumnLookup _ _).rows⟩

section Evaluates

variable {added : List Column} {merged : Schema} (hl : tables tableName = some left)
  (hr : tables join.tableName = some right)
  (hon : OnEvaluates texts command tables tableName tableAlias join left right)
  (hadded : joinColumnsForRightSide left.schema right.schema join.type = some added)
  (hmerged : mergedJoinSchema left.schema added = some merged)

include hon in
theorem pairFails_of_evaluates {l r : TableRow} (hmem : l ∈ left.rows) (hmem' : r ∈ right.rows) :
    pairFails (storedEnv texts command tables)
      (firstState (storedEnv texts command tables) tableName tableAlias left.schema) join
      (rightTable (storedEnv texts command tables) join right.schema added) l r = false := by
  rw [pairFails]
  split
  · rfl
  · rename_i e he
    exact absurd he (hon l hmem r hmem' e)

theorem pairMatches_eq :
    pairMatches (storedEnv texts command tables)
        (firstState (storedEnv texts command tables) tableName tableAlias left.schema) join
        (rightTable (storedEnv texts command tables) join right.schema added) =
      onHolds texts command tables tableName tableAlias join left right := rfl

include hl hr hon hadded hmerged

/-- The rows of the loop over all right rows. -/
theorem executeJoin_withoutIndexes_rows :
    ∃ r, executeJoin (storedEnv texts command tables).withoutIndexes tableName tableAlias [join] =
        some r ∧ r.isOk = true ∧
      r.rows = (loop (onHolds texts command tables tableName tableAlias join left right)
        (combinedRow
          (firstState (storedEnv texts command tables) tableName tableAlias left.schema) join
          (rightTable (storedEnv texts command tables) join right.schema added))
        (paddedRow join (rightTable (storedEnv texts command tables) join right.schema added))
        (fun _ => right.rows) left.rows).map (tableRow texts merged) := by
  have hlrows : ((storedEnv texts command tables).scanRows tableName).1 = left.rows :=
    storedEnv_scanRows hl
  have hrrows : (rightTable (storedEnv texts command tables) join right.schema added).rows =
      right.rows := @storedEnv_scanRows texts command tables _ _ hr
  refine @executeJoin_ok tableName tableAlias join (storedEnv texts command tables).withoutIndexes
    left.schema right.schema merged added _ (@storedEnv_loadSchema texts command tables _ _ hl)
    (@storedEnv_loadSchema texts command tables _ _ hr) hadded hmerged ?_
  show joinRows (storedEnv texts command tables).withoutIndexes _ join _
    ((storedEnv texts command tables).scanRows tableName).1 = _
  rw [hlrows]
  have hloop := @joinRows_withoutIndexes_ok (storedEnv texts command tables) join
    (firstState (storedEnv texts command tables) tableName tableAlias left.schema)
    (rightTable (storedEnv texts command tables) join right.schema added) left.rows
    fun l hmem r hmem' => pairFails_of_evaluates hon hmem (hrrows ▸ hmem')
  rw [hrrows] at hloop
  exact hloop

/-- The rows of a LEFT JOIN are those it would have without indexes. -/
theorem yields_left_iff (htype : join.type = .left) :
    JoinYields texts command tables tableName tableAlias join merged
        (leftOuterRows texts command tables tableName tableAlias join left right) ↔
      JoinsAlike (storedEnv texts command tables) tableName tableAlias join left.schema
        right.schema := by
  obtain ⟨r₀, hr₀, hok₀, hrows₀⟩ := executeJoin_withoutIndexes_rows hl hr hon hadded hmerged
  have hne : join.type ≠ .natural := by
    rw [htype]
    decide
  have hspec : r₀.rows = (leftOuterRows texts command tables tableName tableAlias join left
      right).map (valueTexts texts merged) := by
    rw [hrows₀, loop, leftOuterRows, List.map_flatMap, List.map_flatMap]
    refine List.flatMap_congr fun l hmem => ?_
    rw [rowsFor]
    dsimp only
    split
    · rw [paddedRow, if_pos htype, Option.toList_some, List.map_singleton, List.map_singleton,
        ← nulls_addedColumns hne hadded]
      rfl
    · rw [List.map_map, List.map_map]
      refine List.map_congr_left fun r hmem' => ?_
      rw [Function.comp_apply, combinedRow, combinedValues_of_ne hne l
        (length_values (List.mem_of_mem_filter hmem'))]
      rfl
  rw [← sameRows_iff tableAlias hl hr, hr₀]
  constructor
  · rintro ⟨r, hr, hok, hperm⟩
    rw [hr]
    exact ⟨hok.trans hok₀.symm, by rw [hspec]; exact hperm⟩
  · intro hsame
    cases hexecute : executeJoin (storedEnv texts command tables) tableName tableAlias [join] with
    | none =>
      rw [hexecute] at hsame
      exact absurd hsame id
    | some r =>
      rw [hexecute] at hsame
      exact ⟨r, hexecute, hsame.1.trans hok₀, by rw [← hspec]; exact hsame.2⟩

/-- A RIGHT JOIN keeps the right side exactly if it need not pad. -/
theorem yields_right_iff (htype : join.type = .right) :
    JoinYields texts command tables tableName tableAlias join merged
        (rightOuterRows texts command tables tableName tableAlias join left right) ↔
      ∀ r ∈ right.rows, ∃ l ∈ left.rows,
        onHolds texts command tables tableName tableAlias join left right l r = true := by
  have hlrows : ((storedEnv texts command tables).scanRows tableName).1 = left.rows :=
    storedEnv_scanRows hl
  have hrrows : (rightTable (storedEnv texts command tables) join right.schema added).rows =
      right.rows := @storedEnv_scanRows texts command tables _ _ hr
  have hne : join.type ≠ .natural := by
    rw [htype]
    decide
  have hcandidates : ∀ l, candidateRows (storedEnv texts command tables)
      (firstState (storedEnv texts command tables) tableName tableAlias left.schema) join
      (rightTable (storedEnv texts command tables) join right.schema added) l = right.rows := by
    intro l
    rw [candidateRows, htype, ← hrrows]
    rfl
  have hpadded : paddedRow join (rightTable (storedEnv texts command tables) join right.schema added) =
      fun _ => none := by
    funext l
    rw [paddedRow, htype]
    rfl
  have hjoined := joinRows_ok (storedEnv texts command tables)
    (firstState (storedEnv texts command tables) tableName tableAlias left.schema) join
    (rightTable (storedEnv texts command tables) join right.schema added)
    (fun l hmem r hmem' => pairFails_of_evaluates hon hmem (hcandidates l ▸ hmem'))
  rw [hpadded, funext hcandidates, pairMatches_eq] at hjoined
  obtain ⟨result, hresult, hok, hrows⟩ := executeJoin_ok
    (@storedEnv_loadSchema texts command tables _ _ hl)
    (@storedEnv_loadSchema texts command tables _ _ hr) hadded hmerged
    (by rw [hlrows]; exact hjoined)
  rw [← @loop_perm_inner_iff _ _ _ _ (fun l r => valueTexts texts merged (l.values ++ r.values)) _ _
    fun r => valueTexts texts merged (nulls left ++ r.values)]
  have hinner : result.rows =
      loop (onHolds texts command tables tableName tableAlias join left right)
        (fun l r => valueTexts texts merged (l.values ++ r.values)) (fun _ => none)
        (fun _ => right.rows) left.rows := by
    rw [hrows, map_loop]
    refine List.flatMap_congr fun l _ => ?_
    rw [rowsFor, rowsFor]
    dsimp only
    split
    · rfl
    · refine List.map_congr_left fun r hmem => ?_
      rw [combinedRow, combinedValues_of_ne hne l (length_values (List.mem_of_mem_filter hmem))]
      rfl
  have houter : (rightOuterRows texts command tables tableName tableAlias join left right).map
      (valueTexts texts merged) =
      loop (fun r l => onHolds texts command tables tableName tableAlias join left right l r)
        (fun r l => valueTexts texts merged (l.values ++ r.values))
        (fun r => some (valueTexts texts merged (nulls left ++ r.values))) (fun _ => left.rows)
        right.rows := by
    rw [rightOuterRows, List.map_flatMap, loop]
    refine List.flatMap_congr fun r _ => ?_
    rw [rowsFor]
    dsimp only
    split
    · rfl
    · rw [List.map_map]
      rfl
  rw [← hinner, ← houter]
  constructor
  · rintro ⟨r, hr, -, hperm⟩
    cases hresult.symm.trans hr
    exact hperm
  · exact fun hperm => ⟨result, hresult, hok, hperm⟩

end Evaluates

/-! ## The outer side -/

variable (left right) in
/-- The columns of the join, where they make a schema. -/
def joinedSchema (type : QueryJoinType) : Option Schema :=
  (joinColumnsForRightSide left.schema right.schema type).bind (mergedJoinSchema left.schema)

variable (texts command tables tableName tableAlias join left right) in
/-- A LEFT JOIN has every left row and a RIGHT JOIN every right row, with all its matches or
padded. -/
def KeepsOuterSide (merged : Schema) : Prop :=
  (join.type = .left → JoinYields texts command tables tableName tableAlias join merged
      (leftOuterRows texts command tables tableName tableAlias join left right)) ∧
    (join.type = .right → JoinYields texts command tables tableName tableAlias join merged
      (rightOuterRows texts command tables tableName tableAlias join left right))

end Outer

/-- A RIGHT JOIN keeps the right side exactly if every right row has a match. A LEFT JOIN keeps the
left side exactly if the index leaves out no row that changes the result, such as where no index
is asked or it serves the condition. -/
theorem keepsOuterSide_iff (texts : ValueTexts) (command : String)
    (tables : String → Option JoinedTable) (tableName tableAlias : String) (join : QueryJoin)
    (left right : JoinedTable) (merged : Schema) (hl : tables tableName = some left)
    (hr : tables join.tableName = some right)
    (hon : OnEvaluates texts command tables tableName tableAlias join left right)
    (hmerged : joinedSchema left right join.type = some merged) :
    (KeepsOuterSide texts command tables tableName tableAlias join left right merged ↔
      (join.type = .left → JoinsAlike (storedEnv texts command tables) tableName tableAlias join
        left.schema right.schema) ∧
      (join.type = .right → ∀ r ∈ right.rows, ∃ l ∈ left.rows,
        onHolds texts command tables tableName tableAlias join left right l r = true)) ∧
    (join.type = .left → IndexServes tableName tableAlias join left right →
      JoinYields texts command tables tableName tableAlias join merged
        (leftOuterRows texts command tables tableName tableAlias join left right)) := by
  obtain ⟨added, hadded, hmerged⟩ := Option.bind_eq_some_iff.mp hmerged
  have hleft := fun htype : join.type = .left => yields_left_iff hl hr hon hadded hmerged htype
  have hright := fun htype : join.type = .right => yields_right_iff hl hr hon hadded hmerged htype
  refine ⟨and_congr ?_ ?_, fun htype hserves => (hleft htype).mpr ?_⟩
  · exact forall_congr' hleft
  · exact forall_congr' hright
  · exact joinsAlike_of_serves hl hr (.inr htype) hserves

/-! ## A right row without a match -/

/-- `FROM a RIGHT JOIN b ON a.x op b.y`. -/
def rightJoinOn (op : QueryOperator) : QueryJoin where
  type := .right
  tableName := "b"
  tableAlias := ""
  condition := some (.comparison columnX op columnY)

theorem rightJoinOn_evaluates (op : QueryOperator) :
    OnEvaluates integerTexts "" numbersTables "a" "" (rightJoinOn op) leftNumbers rightNumbers := by
  intro l hmem r hmem' e
  cases List.mem_singleton.mp hmem
  cases List.mem_singleton.mp hmem'
  cases op <;> exact fun h => by cases h

/-- `1 < 2`: the right row has a match. -/
theorem keepsOuterSide_iff_less :
    ∃ merged, joinedSchema leftNumbers rightNumbers .right = some merged ∧
      KeepsOuterSide integerTexts "" numbersTables "a" "" (rightJoinOn .less) leftNumbers rightNumbers
        merged := by
  obtain ⟨merged, hmerged⟩ := Option.isSome_iff_exists.mp
    (by decide : (joinedSchema leftNumbers rightNumbers .right).isSome = true)
  refine ⟨merged, hmerged, ?_⟩
  refine (keepsOuterSide_iff integerTexts "" numbersTables "a" "" (rightJoinOn .less) leftNumbers
    rightNumbers merged rfl rfl (rightJoinOn_evaluates .less) hmerged).1.mpr
    ⟨fun h => (by cases h), fun _ r hmem => ?_⟩
  cases List.mem_singleton.mp hmem
  exact ⟨oneRow 1, List.mem_singleton_self _, by decide⟩

/-- `1 = 2`: the right row is lost. -/
theorem right_row_lost :
    ¬ ∀ (texts : ValueTexts) (command : String) (tables : String → Option JoinedTable)
        (tableName tableAlias : String) (join : QueryJoin) (left right : JoinedTable)
        (merged : Schema), tables tableName = some left → tables join.tableName = some right →
      OnEvaluates texts command tables tableName tableAlias join left right →
      joinedSchema left right join.type = some merged →
      KeepsOuterSide texts command tables tableName tableAlias join left right merged := by
  intro h
  obtain ⟨merged, hmerged⟩ := Option.isSome_iff_exists.mp
    (by decide : (joinedSchema leftNumbers rightNumbers .right).isSome = true)
  have hkeeps := h integerTexts "" numbersTables "a" "" (rightJoinOn .equal) leftNumbers rightNumbers
    merged rfl rfl (rightJoinOn_evaluates .equal) hmerged
  obtain ⟨added, hadded, hmerged⟩ := Option.bind_eq_some_iff.mp hmerged
  have hmatch := (yields_right_iff rfl rfl (rightJoinOn_evaluates .equal) hadded hmerged rfl).mp
    (hkeeps.2 rfl) (oneRow 2) (List.mem_singleton_self _)
  obtain ⟨l, hmem, hholds⟩ := hmatch
  cases List.mem_singleton.mp hmem
  exact absurd hholds (by decide)

end ScratchDb.Select
