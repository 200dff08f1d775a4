import ScratchDb.Select.JoinOrientation

/-!
# Rows of a chain of joins

What one turn of the loop of `execute_join` makes of its rows: each new row is a
left row with a row of the right table, or a left row that is padded. The rows
keep one value for each column of the schema that the joins have merged.
-/

namespace ScratchDb.Select

/-! ## The columns a join adds -/

theorem freeName_of_not_mem {seen : List String} {name : String} (h : name ∉ seen) :
    freeName seen name = name := if_neg h

theorem addedColumns_fst_of_ne {type : QueryJoinType} (htype : type ≠ .natural)
    (seen : List String) (columns : List Column) :
    (addedColumns type seen columns).map (·.1) = columns := by
  induction columns generalizing seen with
  | nil => rfl
  | cons c columns ih => rw [addedColumns, if_neg fun h => htype h.1, List.map_cons, ih]

/-- A natural join leaves out the columns that the left side has. -/
theorem addedColumns_fst_natural {base : List String} {columns : List Column}
    (hnodup : (columns.map (·.name)).Nodup) {seen : List String}
    (hseen : ∀ c ∈ columns, c.name ∈ seen ↔ c.name ∈ base) :
    (addedColumns .natural seen columns).map (·.1) = columns.filter (·.name ∉ base) := by
  induction columns generalizing seen with
  | nil => rfl
  | cons c columns ih =>
    obtain ⟨hc, hcolumns⟩ := List.nodup_cons.mp hnodup
    have hhead := hseen c List.mem_cons_self
    have htail : ∀ c' ∈ columns, c'.name ∈ seen ↔ c'.name ∈ base :=
      fun c' hc' => hseen c' (List.mem_cons_of_mem c hc')
    rw [addedColumns]
    by_cases hmem : c.name ∈ seen
    · rw [if_pos ⟨rfl, hmem⟩, ih hcolumns htail,
        List.filter_cons_of_neg (by simpa using hhead.mp hmem)]
    · rw [if_neg fun h => hmem h.2, List.map_cons, freeName_of_not_mem hmem,
        List.filter_cons_of_pos (by simpa using fun h => hmem (hhead.mpr h))]
      refine congrArg (c :: ·) (ih hcolumns fun c' hc' => ?_)
      -- the names of the right table differ, so the new one is none of the others
      rw [List.mem_cons, htail c' hc']
      exact or_iff_right fun hsame => hc (List.mem_map.mpr ⟨c', hc', hsame⟩)

theorem isSome_findColumn (schema : Schema) (name : String) :
    (schema.findColumn name).isSome = true ↔ name ∈ columnNames schema := by
  constructor
  · intro h
    obtain ⟨column, hcolumn⟩ := Option.isSome_iff_exists.mp h
    rw [SchemaParts.findColumn, Option.bind_eq_some_iff] at hcolumn
    obtain ⟨i, hi, -⟩ := hcolumn
    rw [SchemaParts.columnIndex, List.findIdx?_eq_some_iff_getElem] at hi
    obtain ⟨hlt, hname, -⟩ := hi
    exact List.mem_map.mpr ⟨_, List.getElem_mem hlt, by simpa using hname⟩
  · intro h
    exact findColumn_of_mem h

/-! ## Where a row comes from -/

section Rows

variable {env : SelectEnv} {state : JoinState} {join : QueryJoin} {right : RightTable}

/-- A row of a join is a pair that matches, or a left row that is padded. -/
theorem mem_joinRows {rows joined : List TableRow}
    (h : joinRows env state join right rows = .ok joined) {row : TableRow} (hrow : row ∈ joined) :
    ∃ l ∈ rows,
      (∃ r ∈ candidateRows env state join right l, pairMatches env state join right l r = true ∧
        row = combinedRow state join right l r) ∨
      paddedRow join right l = some row := by
  have hpairs : ∀ l ∈ rows, ∀ r ∈ candidateRows env state join right l,
      pairFails env state join right l r = false := by
    intro l hl r hr
    by_contra hne
    obtain ⟨e, he⟩ := joinRows_error env state join right ⟨l, hl, r, hr, by simpa using hne⟩
    rw [h] at he
    cases he
  rw [joinRows_ok env state join right hpairs] at h
  cases h
  obtain ⟨l, hl, hrow⟩ := List.mem_flatMap.mp hrow
  refine ⟨l, hl, ?_⟩
  rw [NestedLoop.rowsFor] at hrow
  split at hrow
  · exact .inr (Option.mem_toList.mp hrow)
  · obtain ⟨r, hr, rfl⟩ := List.mem_map.mp hrow
    obtain ⟨hmem, hmatches⟩ := List.mem_filter.mp hr
    exact .inl ⟨r, hmem, hmatches, rfl⟩

/-- As many values of a pair as the join adds columns. -/
theorem length_combinedValues (leftRow : TableRow) {rightRow : TableRow}
    (hright : rightRow.values.length = right.schema.columns.length) :
    (combinedValues state join right leftRow rightRow).length =
      leftRow.values.length +
        (addedColumns join.type (columnNames state.schema) right.schema.columns).length := by
  have hzip : (rightRow.values.zip right.schema.columns).map (·.2) = right.schema.columns := by
    rw [List.map_snd_zip]
    omega
  have hcount : ∀ p : Column → Bool,
      (rightRow.values.zip right.schema.columns).countP (fun v => p v.2) =
        right.schema.columns.countP p := by
    intro p
    conv_rhs => rw [← hzip, List.countP_map]
    rfl
  rw [combinedValues, List.length_append, List.length_filterMap_eq_countP,
    ← List.length_map (fun c : Column × String => c.1)]
  refine congrArg (leftRow.values.length + ·) ?_
  by_cases htype : join.type = .natural
  · rw [htype, addedColumns_fst_natural right.schema.columnsValid.2.2.2 fun _ _ => Iff.rfl,
      ← List.countP_eq_length_filter, ← hcount]
    refine List.countP_congr fun v _ => ?_
    have hsome := isSome_findColumn state.schema v.2.name
    by_cases hmem : v.2.name ∈ columnNames state.schema
    · simp [hsome.mpr hmem, hmem]
    · have hnone : (state.schema.findColumn v.2.name).isSome = false := by
        simpa using fun h => hmem (hsome.mp h)
      simp [hnone, hmem]
  · rw [addedColumns_fst_of_ne htype, ← List.countP_true, ← hcount]
    refine List.countP_congr fun v _ => ?_
    simp [htype]

end Rows

/-! ## One value for each column -/

theorem forall₂_of_mapM {α β : Type} {f : α → Option β} {as : List α} {bs : List β}
    (h : as.mapM f = some bs) : List.Forall₂ (fun a b => f a = some b) as bs := by
  induction as generalizing bs with
  | nil =>
    cases h
    exact .nil
  | cons a as ih =>
    rw [List.mapM_cons] at h
    simp only [Option.bind_eq_bind, Option.bind_eq_some_iff] at h
    obtain ⟨b, hb, rest, hrest, h⟩ := h
    cases h
    exact .cons hb (ih hrest)

theorem length_joinColumnsForRightSide {current right : Schema} {type : QueryJoinType}
    {columns : List Column} (h : joinColumnsForRightSide current right type = some columns) :
    columns.length = (addedColumns type (columnNames current) right.columns).length :=
  (forall₂_of_mapM h).length_eq.symm

theorem columns_mergedJoinSchema {current merged : Schema} {columns : List Column}
    (h : mergedJoinSchema current columns = some merged) :
    merged.columns = current.columns ++ columns := by
  unfold mergedJoinSchema at h
  split at h
  · rename_i schema hmake
    cases h
    rw [Schema.make_eq_ok hmake]
  · cases h

def JoinState.Fits (state : JoinState) : Prop :=
  ∀ row ∈ state.rows, row.values.length = state.schema.columns.length

section Stored

variable {texts : ValueTexts} {command : String} {tables : String → Option JoinedTable}
  {state state' : JoinState} {join : QueryJoin}

/-- What a step of the loop over the joins is, for a table that is stored. -/
theorem joinStep_stored (h : joinStep (storedEnv texts command tables) state join = some (.ok state')) :
    ∃ right addedColumns joined, tables join.tableName = some right ∧
      joinColumnsForRightSide state.schema right.schema join.type = some addedColumns ∧
      joinRows (storedEnv texts command tables) state join
        (rightTable (storedEnv texts command tables) join right.schema addedColumns) state.rows =
          .ok joined ∧
      mergedJoinSchema state.schema addedColumns = some state'.schema ∧
      state' = ⟨joined, state'.schema,
        buildJoinAliasMap state.aliases (rightAlias join) state.schema right.schema join.type⟩ := by
  cases hright : tables join.tableName with
  | none =>
    have hnone : (storedEnv texts command tables).loadSchema join.tableName = none := by
      show (tables join.tableName).map (·.schema) = none
      rw [hright]
      rfl
    rw [joinStep, hnone] at h
    cases h
  | some right =>
    have hschema : (storedEnv texts command tables).loadSchema join.tableName = some right.schema :=
      storedEnv_loadSchema hright
    cases hadded : joinColumnsForRightSide state.schema right.schema join.type with
    | none =>
      rw [joinStep, hschema] at h
      dsimp only at h
      rw [hadded] at h
      cases h
    | some addedColumns =>
      rw [joinStep_added hschema hadded] at h
      cases hjoined : joinRows (storedEnv texts command tables) state join
          (rightTable (storedEnv texts command tables) join right.schema addedColumns) state.rows with
      | error e =>
        rw [hjoined] at h
        cases h
      | ok joined =>
        rw [hjoined, joinedState] at h
        cases hmerged : mergedJoinSchema state.schema addedColumns with
        | none =>
          rw [hmerged] at h
          cases h
        | some merged =>
          rw [hmerged] at h
          cases h
          exact ⟨right, addedColumns, joined, rfl, hadded, hjoined, hmerged, rfl⟩

theorem candidateRows_mem {right : JoinedTable} (hright : tables join.tableName = some right)
    {addedColumns : List Column} {l r : TableRow}
    (h : r ∈ candidateRows (storedEnv texts command tables) state join
      (rightTable (storedEnv texts command tables) join right.schema addedColumns) l) :
    r ∈ right.rows := by
  have hrows := @storedEnv_scanRows texts command tables _ _ hright
  have hmem := (@candidateRows_subperm texts command tables join right hright state
    (rightTable (storedEnv texts command tables) join right.schema addedColumns) hrows l).subset h
  rw [← hrows]
  exact hmem

theorem JoinState.Fits.joinStep (hfits : state.Fits)
    (h : joinStep (storedEnv texts command tables) state join = some (.ok state')) : state'.Fits := by
  obtain ⟨right, addedColumns, joined, hright, hadded, hjoined, hmerged, hstate⟩ := joinStep_stored h
  have hcolumns : state'.schema.columns.length =
      state.schema.columns.length + addedColumns.length := by
    rw [columns_mergedJoinSchema hmerged, List.length_append]
  intro row hrow
  rw [hstate] at hrow
  obtain ⟨l, hl, ⟨r, hr, -, rfl⟩ | hpadded⟩ := mem_joinRows hjoined hrow
  · have hlength : (combinedValues state join
        (rightTable (storedEnv texts command tables) join right.schema addedColumns) l r).length =
          _ := length_combinedValues l (length_values (candidateRows_mem hright hr))
    rw [hcolumns, length_joinColumnsForRightSide hadded, ← hfits l hl]
    exact hlength
  · rw [paddedRow] at hpadded
    split at hpadded
    · cases hpadded
      show (l.values ++ addedColumns.map fun _ => Value.null).length = _
      rw [hcolumns, List.length_append, List.length_map, hfits l hl]
    · cases hpadded

theorem JoinState.Fits.joinAll {joins : List QueryJoin} (hfits : state.Fits)
    (h : joinAll (storedEnv texts command tables) state joins = some (.ok state')) : state'.Fits := by
  induction joins generalizing state with
  | nil =>
    cases h
    exact hfits
  | cons join joins ih =>
    rw [ScratchDb.Select.joinAll] at h
    split at h
    · rename_i next hstep
      exact ih (hfits.joinStep hstep) h
    · rename_i hother
      exact absurd h (hother _)

theorem fits_firstState {tableName tableAlias : String} {t : JoinedTable}
    (h : tables tableName = some t) :
    (firstState (storedEnv texts command tables) tableName tableAlias t.schema).Fits := by
  intro row hrow
  refine length_values (t := t) ?_
  rw [← @storedEnv_scanRows texts command tables _ _ h]
  exact hrow

end Stored

end ScratchDb.Select
