import ScratchDb.Select.ColumnLookups
import ScratchDb.Select.IndexedJoins

/-!
# An index of the right table

A join of two stored tables with their indexes and without them: exactly when
the rows are the same, and why they are where `ON` names the column of the left
table first.
-/

namespace ScratchDb.Select

open NestedLoop

/-- The same rows in some order, or an error of both. -/
def SameRows : Option QueryResult → Option QueryResult → Prop
  | none, none => True
  | some r, some r' => r.isOk = r'.isOk ∧ r.rows.Perm r'.rows
  | _, _ => False

/-! ## A join of two tables -/

section OneJoin

variable (env : SelectEnv) (tableName tableAlias : String) (join : QueryJoin) (schema right : Schema)

/-- The left table of a statement. -/
def firstState : JoinState where
  rows := (env.scanRows tableName).1
  schema := schema
  aliases := buildAliasMap (if tableAlias = "" then tableName else tableAlias) schema

def rightAlias : String := if join.tableAlias = "" then join.tableName else join.tableAlias

def rightTable (addedColumns : List Column) : RightTable where
  schema := right
  aliases := buildAliasMap (rightAlias join) right
  addedColumns := addedColumns
  rows := (env.scanRows join.tableName).1

/-- The result of the statement from where the loop over its joins has come to. -/
def joinedResult : Option (Except QueryError JoinState) → Option QueryResult
  | none => none
  | some (.error e) => some (failed e)
  | some (.ok state) =>
    some (setJoinColumnLookup
      { columns := tableColumns state.schema,
        rows := state.rows.map (tableRow env.texts state.schema), rowCount := state.rows.length }
      state.aliases)

/-- The result of a statement of one join from its rows. -/
def joinResult (addedColumns : List Column) : Except QueryError (List TableRow) → Option QueryResult
  | .error e => some (failed e)
  | .ok rows =>
    (mergedJoinSchema schema addedColumns).map fun merged =>
      setJoinColumnLookup
        { columns := tableColumns merged, rows := rows.map (tableRow env.texts merged),
          rowCount := rows.length }
        (buildJoinAliasMap (firstState env tableName tableAlias schema).aliases (rightAlias join)
          schema right join.type)

variable {env tableName join schema right}

theorem executeJoin_eq (hschema : env.loadSchema tableName = some schema) (joins : List QueryJoin) :
    executeJoin env tableName tableAlias joins =
      joinedResult env (joinAll env (firstState env tableName tableAlias schema) joins) := by
  rw [executeJoin, hschema]
  rfl

/-- Where the loop has come to behind a join with these rows. -/
def joinedState (state : JoinState) (join : QueryJoin) (right : Schema) (addedColumns : List Column) :
    Except QueryError (List TableRow) → Option (Except QueryError JoinState)
  | .error e => some (.error e)
  | .ok rows =>
    (mergedJoinSchema state.schema addedColumns).map fun merged =>
      .ok ⟨rows, merged,
        buildJoinAliasMap state.aliases (rightAlias join) state.schema right join.type⟩

theorem joinStep_added {state : JoinState} (hright : env.loadSchema join.tableName = some right)
    {addedColumns : List Column}
    (hadded : joinColumnsForRightSide state.schema right join.type = some addedColumns) :
    joinStep env state join = joinedState state join right addedColumns
      (joinRows env state join (rightTable env join right addedColumns) state.rows) := by
  rw [joinStep, hright]
  dsimp only
  rw [hadded]
  rfl

theorem joinAll_single (env : SelectEnv) (state : JoinState) (join : QueryJoin) :
    joinAll env state [join] = joinStep env state join := by
  rw [joinAll]
  split
  · rename_i hstep
    rw [hstep, joinAll]
  · rfl

theorem executeJoin_single (hschema : env.loadSchema tableName = some schema)
    (hright : env.loadSchema join.tableName = some right) {addedColumns : List Column}
    (hadded : joinColumnsForRightSide schema right join.type = some addedColumns) :
    executeJoin env tableName tableAlias [join] =
      joinResult env tableName tableAlias join schema right addedColumns
        (joinRows env (firstState env tableName tableAlias schema) join
          (rightTable env join right addedColumns) (env.scanRows tableName).1) := by
  have hstep := @joinStep_added env join right (firstState env tableName tableAlias schema) hright
    addedColumns hadded
  rw [executeJoin_eq tableAlias hschema, joinAll_single, hstep]
  show joinedResult env (joinedState _ join right addedColumns
    (joinRows env _ join _ (env.scanRows tableName).1)) = _
  cases joinRows env (firstState env tableName tableAlias schema) join
      (rightTable env join right addedColumns) (env.scanRows tableName).1 with
  | error e => rfl
  | ok rows =>
    rw [joinResult, joinedState, show (firstState env tableName tableAlias schema).schema = schema
      from rfl]
    cases mergedJoinSchema schema addedColumns with
    | none => rfl
    | some merged => rfl

theorem executeJoin_throws (hschema : env.loadSchema tableName = some schema)
    (hright : env.loadSchema join.tableName = some right)
    (hadded : joinColumnsForRightSide schema right join.type = none) :
    executeJoin env tableName tableAlias [join] = none := by
  have hstep : joinStep env (firstState env tableName tableAlias schema) join = none := by
    rw [joinStep, hright]
    dsimp only
    rw [show joinColumnsForRightSide (firstState env tableName tableAlias schema).schema right
      join.type = none from hadded]
  rw [executeJoin_eq tableAlias hschema, joinAll_single, hstep]
  rfl

end OneJoin

/-! ## With and without the index -/

section Alike

/-- The rows that the index leaves out change nothing: a condition fails on a row that is tried, or
it fails on no pair and every left row has all its rows. -/
def MissesNothing (env : SelectEnv) (state : JoinState) (join : QueryJoin) (right : RightTable) :
    Prop :=
  (∃ l ∈ state.rows, ∃ r ∈ candidateRows env state join right l,
      pairFails env state join right l r = true) ∨
    (∀ l ∈ state.rows, ∀ r ∈ right.rows, pairFails env state join right l r = false) ∧
      ∀ merged, mergedJoinSchema state.schema right.addedColumns = some merged → ∀ l ∈ state.rows,
        Covers (pairMatches env state join right)
          (fun l r => tableRow env.texts merged (combinedRow state join right l r))
          (fun l => (paddedRow join right l).map (tableRow env.texts merged))
          (candidateRows env state join right l) right.rows l

variable {env : SelectEnv} {tableName tableAlias : String} {join : QueryJoin} {schema right : Schema}

theorem candidateRows_withoutIndexes (state : JoinState) (join : QueryJoin) (right : RightTable)
    (leftRow : TableRow) :
    candidateRows env.withoutIndexes state join right leftRow = right.rows := by
  unfold candidateRows
  dsimp only
  split
  · rfl
  · split
    · rfl
    · rfl

theorem joinRows_withoutIndexes_ok {state : JoinState} {right : RightTable} {rows : List TableRow}
    (h : ∀ l ∈ rows, ∀ r ∈ right.rows, pairFails env state join right l r = false) :
    joinRows env.withoutIndexes state join right rows =
      .ok (loop (pairMatches env state join right) (combinedRow state join right)
        (paddedRow join right) (fun _ => right.rows) rows) := by
  rw [joinRows_ok env.withoutIndexes state join right fun l hl r hr => ?_]
  · rw [show candidateRows env.withoutIndexes state join right = fun _ => right.rows from
      funext (candidateRows_withoutIndexes state join right)]
    rfl
  · rw [candidateRows_withoutIndexes] at hr
    exact h l hl r hr

theorem joinRows_withoutIndexes_error {state : JoinState} {right : RightTable}
    {rows : List TableRow}
    (h : ∃ l ∈ rows, ∃ r ∈ right.rows, pairFails env state join right l r = true) :
    ∃ e, joinRows env.withoutIndexes state join right rows = .error e := by
  obtain ⟨l, hl, r, hr, hfails⟩ := h
  refine joinRows_error env.withoutIndexes state join right ⟨l, hl, r, ?_, hfails⟩
  rw [candidateRows_withoutIndexes]
  exact hr

/-! ### The texts of a row -/

def cellText (texts : ValueTexts) (schema : Schema) (v : Value × Nat) : String :=
  match schema.columns[v.2]? with
  | some column => texts.formatValue column v.1
  | none => ""

theorem tableRow_append (texts : ValueTexts) (schema : Schema) (row : TableRow) (a b : List Value) :
    tableRow texts schema { row with values := a ++ b } =
      tableRow texts schema { row with values := a } ++
        (b.zipIdx a.length).map (cellText texts schema) := by
  show ((a ++ b).zipIdx.map (cellText texts schema)) = a.zipIdx.map (cellText texts schema) ++ _
  rw [List.zipIdx_append, List.map_append, Nat.zero_add]

theorem length_tableRow (texts : ValueTexts) (schema : Schema) (row : TableRow) :
    (tableRow texts schema row).length = row.values.length := by
  simp [tableRow]

/-- The texts behind those of the left row. -/
theorem drop_tableRow (texts : ValueTexts) (schema : Schema) (row : TableRow) (b : List Value) :
    (tableRow texts schema { row with values := row.values ++ b }).drop row.values.length =
      (b.zipIdx row.values.length).map (cellText texts schema) := by
  rw [tableRow_append, List.drop_left' (length_tableRow texts schema row)]

/-! ### Exactly when -/

theorem sameRows_ok_iff {state : JoinState} {right : RightTable} {rows : List TableRow}
    (texts : ValueTexts) (merged : Schema) (n : Nat)
    (hrows : ∀ l ∈ rows, l.values.length = n)
    (hsub : ∀ l ∈ rows, (candidateRows env state join right l).Subperm right.rows)
    (hright : right.rows.Nodup) :
    ((loop (pairMatches env state join right) (combinedRow state join right)
          (paddedRow join right) (candidateRows env state join right) rows).map
        (tableRow texts merged)).Perm
      ((loop (pairMatches env state join right) (combinedRow state join right)
          (paddedRow join right) (fun _ => right.rows) rows).map (tableRow texts merged)) ↔
    ∀ l ∈ rows, Covers (pairMatches env state join right)
      (fun l r => tableRow texts merged (combinedRow state join right l r))
      (fun l => (paddedRow join right l).map (tableRow texts merged))
      (candidateRows env state join right l) right.rows l := by
  rw [map_loop, map_loop]
  let nulls := right.addedColumns.map fun _ => Value.null
  have hpadded : ∀ l ∈ rows, ∀ o, (paddedRow join right l).map (tableRow texts merged) = some o →
      o = tableRow texts merged { l with values := l.values ++ nulls } := by
    intro l _ o ho
    unfold paddedRow at ho
    split at ho
    · exact (Option.some.inj ho).symm
    · cases ho
  refine loop_perm_iff hsub hright (List.drop n) ((nulls.zipIdx n).map (cellText texts merged)) ?_ ?_
  · intro l hl o ho
    rw [hpadded l hl o ho, ← hrows l hl]
    exact drop_tableRow texts merged l nulls
  · intro l hl r _ o ho htail
    rw [hpadded l hl o ho, tableRow_append]
    rw [← hrows l hl] at htail
    rw [combinedRow, combinedValues, tableRow_append]
    refine congrArg (_ ++ ·) ?_
    rw [← htail]
    exact (drop_tableRow texts merged l _).symm

theorem sameRows_joinResult_iff {addedColumns : List Column} {ls ls' : List TableRow} :
    SameRows (joinResult env tableName tableAlias join schema right addedColumns (.ok ls))
        (joinResult env tableName tableAlias join schema right addedColumns (.ok ls')) ↔
      ∀ merged, mergedJoinSchema schema addedColumns = some merged →
        (ls.map (tableRow env.texts merged)).Perm (ls'.map (tableRow env.texts merged)) := by
  unfold joinResult
  cases hmerged : mergedJoinSchema schema addedColumns with
  | none =>
    constructor
    · intro _ merged h
      cases h
    · exact fun _ => trivial
  | some merged =>
    dsimp only
    rw [Option.map_some, Option.map_some, SameRows, (sameData_setJoinColumnLookup _ _).isOk,
      (sameData_setJoinColumnLookup _ _).isOk, (sameData_setJoinColumnLookup _ _).rows,
      (sameData_setJoinColumnLookup _ _).rows]
    constructor
    · rintro ⟨-, hperm⟩ merged' h
      cases h
      exact hperm
    · exact fun h => ⟨rfl, h merged rfl⟩

theorem not_sameRows_error {addedColumns : List Column} {ls : List TableRow} {e : QueryError} :
    ¬ SameRows (joinResult env tableName tableAlias join schema right addedColumns (.ok ls))
      (joinResult env tableName tableAlias join schema right addedColumns (.error e)) := by
  unfold joinResult
  cases mergedJoinSchema schema addedColumns with
  | none => exact fun h => h
  | some merged =>
    rintro ⟨hok, -⟩
    rw [(sameData_setJoinColumnLookup _ _).isOk] at hok
    cases hok

end Alike

section Stored

variable {texts : ValueTexts} {command : String} {tables : String → Option JoinedTable}
  {tableName : String} {join : QueryJoin} {left right : JoinedTable}

theorem storedEnv_scanRows {name : String} {t : JoinedTable} (h : tables name = some t) :
    ((storedEnv texts command tables).scanRows name).1 = t.rows := by
  show ((tables name).map (·.rows)).getD [] = t.rows
  rw [h]
  rfl

theorem storedEnv_loadSchema {name : String} {t : JoinedTable} (h : tables name = some t) :
    (storedEnv texts command tables).loadSchema name = some t.schema := by
  show (tables name).map (·.schema) = some t.schema
  rw [h]
  rfl

/-- Only rows of the right table are tried. -/
theorem candidateRows_subperm (h : tables join.tableName = some right) (state : JoinState)
    {rightTable : RightTable} (hrows : rightTable.rows = right.rows) (leftRow : TableRow) :
    (candidateRows (storedEnv texts command tables) state join rightTable leftRow).Subperm
      rightTable.rows := by
  unfold candidateRows
  dsimp only
  split
  · exact .refl _
  · split
    · exact .refl _
    · rename_i lookup leftColumn rightColumn _ _ value _
      cases hfound : (storedEnv texts command tables).findRowsByIndex join.tableName rightColumn
          value with
      | none => exact .refl _
      | some rows =>
        rw [Option.getD_some, hrows]
        have hfound' : (tables join.tableName).bind
            (fun t => t.findRowsByIndex rightColumn value) = some rows := hfound
        rw [h, Option.bind_some] at hfound'
        exact JoinedTable.findRowsByIndex_subperm hfound'

theorem length_values {t : JoinedTable} {row : TableRow} (h : row ∈ t.rows) :
    row.values.length = t.schema.columns.length := (t.valid row h).length_eq

theorem sameRows_joinRows_iff {state : JoinState} {table : RightTable} {addedColumns : List Column}
    (tableAlias : String) (hl : tables tableName = some left)
    (hr : tables join.tableName = some right)
    (hstate : state = firstState (storedEnv texts command tables) tableName tableAlias left.schema)
    (htable : table = rightTable (storedEnv texts command tables) join right.schema addedColumns) :
    SameRows
        (joinResult (storedEnv texts command tables) tableName tableAlias join left.schema
          right.schema addedColumns
          (joinRows (storedEnv texts command tables) state join table state.rows))
        (joinResult (storedEnv texts command tables) tableName tableAlias join left.schema
          right.schema addedColumns
          (joinRows (storedEnv texts command tables).withoutIndexes state join table state.rows)) ↔
      MissesNothing (storedEnv texts command tables) state join table := by
  let env := storedEnv texts command tables
  have hlrows : state.rows = left.rows := by
    rw [hstate]
    exact @storedEnv_scanRows texts command tables _ _ hl
  have hrrows : table.rows = right.rows := by
    rw [htable]
    exact @storedEnv_scanRows texts command tables _ _ hr
  have hsub : ∀ l ∈ state.rows, (candidateRows env state join table l).Subperm table.rows :=
    fun l _ => candidateRows_subperm hr state hrrows l
  by_cases hfails : ∃ l ∈ state.rows, ∃ r ∈ candidateRows env state join table l,
      pairFails env state join table l r = true
  · obtain ⟨e, he⟩ := joinRows_error env state join table hfails
    obtain ⟨l, hmem, r, hr', hpair⟩ := hfails
    obtain ⟨e', he'⟩ := @joinRows_withoutIndexes_error env join state table state.rows
      ⟨l, hmem, r, (hsub l hmem).subset hr', hpair⟩
    rw [he, he']
    exact iff_of_true ⟨rfl, .refl _⟩ (.inl ⟨l, hmem, r, hr', hpair⟩)
  have hcandidates : ∀ l ∈ state.rows, ∀ r ∈ candidateRows env state join table l,
      pairFails env state join table l r = false := by
    intro l hmem r hr'
    by_contra hne
    exact hfails ⟨l, hmem, r, hr', by simpa using hne⟩
  rw [joinRows_ok env state join table hcandidates]
  by_cases hall : ∃ l ∈ state.rows, ∃ r ∈ table.rows, pairFails env state join table l r = true
  · -- Only the loop over all rows comes to the pair.
    obtain ⟨e, he⟩ := @joinRows_withoutIndexes_error env join state table state.rows hall
    rw [he]
    refine iff_of_false not_sameRows_error ?_
    rintro (hfails' | ⟨hnone, -⟩)
    · exact hfails hfails'
    · obtain ⟨l, hmem, r, hr', hpair⟩ := hall
      rw [hnone l hmem r hr'] at hpair
      cases hpair
  have hpairs : ∀ l ∈ state.rows, ∀ r ∈ table.rows, pairFails env state join table l r = false := by
    intro l hmem r hr'
    by_contra hne
    exact hall ⟨l, hmem, r, hr', by simpa using hne⟩
  rw [joinRows_withoutIndexes_ok hpairs, sameRows_joinResult_iff]
  have hschema : state.schema = left.schema := by rw [hstate]; rfl
  have hadded : table.addedColumns = addedColumns := by rw [htable]; rfl
  have hcovers := fun merged => @sameRows_ok_iff env join state table state.rows texts merged
    left.schema.columns.length (fun l hmem => length_values (hlrows ▸ hmem)) hsub
    (hrrows ▸ right.nodup_rows)
  constructor
  · intro h
    refine .inr ⟨hpairs, fun merged hmerged => ?_⟩
    rw [hschema, hadded] at hmerged
    exact (hcovers merged).mp (h merged hmerged)
  · rintro (hfails' | ⟨-, h⟩)
    · exact absurd hfails' hfails
    · intro merged hmerged
      exact (hcovers merged).mpr (h merged (by rw [hschema, hadded, hmerged]))

/-- The condition under which the index changes nothing. -/
def JoinsAlike (env : SelectEnv) (tableName tableAlias : String) (join : QueryJoin)
    (schema right : Schema) : Prop :=
  ∀ addedColumns, joinColumnsForRightSide schema right join.type = some addedColumns →
    MissesNothing env (firstState env tableName tableAlias schema) join
      (rightTable env join right addedColumns)

theorem sameRows_iff (tableAlias : String) (hl : tables tableName = some left)
    (hr : tables join.tableName = some right) :
    SameRows (executeJoin (storedEnv texts command tables) tableName tableAlias [join])
        (executeJoin (storedEnv texts command tables).withoutIndexes tableName tableAlias [join]) ↔
      JoinsAlike (storedEnv texts command tables) tableName tableAlias join left.schema
        right.schema := by
  let env := storedEnv texts command tables
  have hschema : env.loadSchema tableName = some left.schema := storedEnv_loadSchema hl
  have hright : env.loadSchema join.tableName = some right.schema := storedEnv_loadSchema hr
  unfold JoinsAlike
  cases hadded : joinColumnsForRightSide left.schema right.schema join.type with
  | none =>
    rw [executeJoin_throws tableAlias hschema hright hadded,
      @executeJoin_throws env.withoutIndexes _ tableAlias _ _ _ hschema hright hadded]
    constructor
    · intro _ addedColumns h
      cases h
    · exact fun _ => trivial
  | some addedColumns =>
    have hiff := @sameRows_joinRows_iff texts command tables tableName join left right _ _
      addedColumns tableAlias hl hr rfl rfl
    have hindexed := executeJoin_single tableAlias hschema hright hadded
    have hplain := @executeJoin_single env.withoutIndexes _ tableAlias _ _ _ hschema hright _ hadded
    rw [hindexed, hplain]
    constructor
    · intro h added heq
      cases heq
      exact hiff.mp h
    · exact fun h => hiff.mpr (h addedColumns rfl)

end Stored

end ScratchDb.Select
