import ScratchDb.Select.Execution
import ScratchDb.Select.OnOperands
import ScratchDb.Values.ResultTexts

/-!
# `SELECT *` from two tables

A query that selects all columns of a join returns what `execute_join` of
`src/query/query_executor.cpp` returns, and with a condition the rows of it that
the condition keeps. The rows of a join of two stored tables are pairs of their
rows, and the texts of a pair are those of its two rows.
-/

namespace ScratchDb.Select

open NestedLoop OpenRecursion

/-! ## The stages of the query -/

/-- `SELECT * FROM name tableAlias JOIN ... WHERE condition`. -/
def ParsedQuery.allOfJoin (name tableAlias : String) (join : QueryJoin)
    (condition : Option QueryCondition) : ParsedQuery :=
  { ParsedQuery.allOf name with tableAlias, joins := [join], condition }

section Stages

variable {env : SelectEnv} {tableName tableAlias : String} {join : QueryJoin}
  {condition : Option QueryCondition} {r : QueryResult}

theorem finishSelect_allOfJoin (texts : ValueTexts) (command : String) (r : QueryResult) :
    finishSelect texts command (.allOfJoin tableName tableAlias join condition) r = some r := by
  cases hok : r.isOk with
  | false =>
    show (if r.isOk = false then some r else some r) = some r
    rw [if_pos hok]
  | true =>
    show (if r.isOk = false then some r else some r) = some r
    rw [if_neg (by simp [hok])]

theorem executeRowSource_allOfJoin (chain : ParsedQuery × Option Outer → Run QueryResult) :
    executeRowSource env chain (.allOfJoin tableName tableAlias join condition) =
      orThrow (executeJoin env tableName tableAlias [join]) := rfl

theorem executeSelectChain_throws (fuel : Nat)
    (hjoin : executeJoin env tableName tableAlias [join] = none) :
    executeSelectChain env (fuel + 1) (.allOfJoin tableName tableAlias join condition) none =
      .error .exception := by
  show (executeSelect env _ (.allOfJoin tableName tableAlias join condition) >>= _) = _
  rw [executeSelect, executeRowSource_allOfJoin, hjoin]
  rfl

/-- Without a condition. -/
theorem executeSelectChain_all (fuel : Nat)
    (hjoin : executeJoin env tableName tableAlias [join] = some r) :
    executeSelectChain env (fuel + 1) (.allOfJoin tableName tableAlias join none) none = .ok r := by
  have hselect : executeSelect env (iterate (chainStep env) fuel)
      (.allOfJoin tableName tableAlias join none) = .ok r := by
    rw [executeSelect, executeRowSource_allOfJoin, hjoin]
    cases hok : r.isOk with
    | false =>
      show (if r.isOk = false then (pure r : Run QueryResult) else _) = _
      rw [if_pos hok]
      rfl
    | true =>
      show (if r.isOk = false then (pure r : Run QueryResult) else
        orThrow (finishSelect env.texts env.command _ r)) = _
      rw [if_neg (by simp [hok]), finishSelect_allOfJoin]
      rfl
  show (executeSelect env _ (.allOfJoin tableName tableAlias join none) >>= fun result =>
    if result.isOk = false then pure result else pure result) = _
  rw [hselect]
  show (if r.isOk = false then (pure r : Run QueryResult) else pure r) = _
  rw [ite_self]
  rfl

section Filter

variable {texts : ValueTexts} {command : String} {source : QueryResult} {c : QueryCondition}
  {chain : ParsedQuery × Option Outer → Run QueryResult} {keeps : List String → Bool}

/-- A condition without subqueries that has a value on every row. -/
theorem filterRows_eq (hresolved : ∀ outer, resolveSubqueries command chain outer c = .ok (.ok c))
    {rows : List (List String)}
    (hmatches : ∀ row ∈ rows, resultRowMatches texts source row c = .ok (keeps row)) :
    filterRows texts command chain source c rows = .ok (.ok (rows.filter keeps)) := by
  induction rows with
  | nil => rfl
  | cons row rows ih =>
    have hrow := hmatches row List.mem_cons_self
    have hrest := ih fun row' hrow' => hmatches row' (List.mem_cons_of_mem row hrow')
    rw [filterRows, hresolved]
    simp only [bind, Except.bind]
    rw [hrow]
    dsimp only
    rw [hrest, List.filter_cons]
    rfl

end Filter

/-- With a condition without subqueries that has a value on every row. -/
theorem executeSelectChain_where (fuel : Nat) {c : QueryCondition} {keeps : List String → Bool}
    (hjoin : executeJoin env tableName tableAlias [join] = some r) (hok : r.isOk = true)
    (hresolved : ∀ chain outer, resolveSubqueries env.command chain outer c = .ok (.ok c))
    (hmatches : ∀ row ∈ r.rows, resultRowMatches env.texts r row c = .ok (keeps row)) :
    ∃ r', executeSelectChain env (fuel + 1) (.allOfJoin tableName tableAlias join (some c)) none =
        .ok r' ∧ r'.isOk = true ∧ r'.rows = r.rows.filter keeps := by
  let kept : QueryResult :=
    { columns := r.columns, rows := r.rows.filter keeps, rowCount := (r.rows.filter keeps).length,
      columnPositions := r.columnPositions, ambiguousColumns := r.ambiguousColumns }
  have hwhere : whereRows env.texts env.command (iterate (chainStep env) fuel)
      (.allOfJoin tableName tableAlias join (some c)) r = .ok (.ok kept) := by
    show (filterRows env.texts env.command _ r c r.rows >>= _) = _
    rw [filterRows_eq (hresolved _) hmatches]
    rfl
  have hselect : executeSelect env (iterate (chainStep env) fuel)
      (.allOfJoin tableName tableAlias join (some c)) = .ok kept := by
    rw [executeSelect, executeRowSource_allOfJoin, hjoin]
    show (if r.isOk = false then (pure r : Run QueryResult) else
      whereRows env.texts env.command (iterate (chainStep env) fuel)
        (.allOfJoin tableName tableAlias join (some c)) r >>= _) = _
    rw [if_neg (by simp [hok]), hwhere]
    show orThrow (finishSelect env.texts env.command
      (.allOfJoin tableName tableAlias join (some c)) kept) = _
    rw [finishSelect_allOfJoin]
    rfl
  refine ⟨kept, ?_, rfl, rfl⟩
  show (executeSelect env _ (.allOfJoin tableName tableAlias join (some c)) >>= _) = _
  rw [hselect]
  rfl

end Stages

/-! ## Texts of a pair of rows -/

theorem formatValue_of_sameKind {c c' : Column} (h : SameKind c c') {v : Value}
    (hm : v.matchesColumn c = true) :
    ValueParser.formatValue c' v = ValueParser.formatValue c v := by
  cases v with
  | number n =>
    have htype := (Value.type_eq_of_matchesColumn rfl hm).symm
    rw [ValueParser.formatValue, ValueParser.formatValue, (h.format htype).2]
  | null | integer n | character t | string t | varstring t | text t | date n | time n | datetime n =>
    rfl

theorem matchesColumn_of_sameKind {c c' : Column} (h : SameKind c c') {v : Value}
    (hm : v.matchesColumn c = true) : v.matchesColumn c' = true := by
  cases v with
  | null =>
    rw [Value.matchesColumn] at hm ⊢
    rw [h.nullable]
    exact hm
  | number n =>
    have htype := (Value.type_eq_of_matchesColumn rfl hm).symm
    simp only [Value.matchesColumn, Value.type, h.type, (h.format htype).1] at hm ⊢
    exact hm
  | integer n | character t | string t | varstring t | text t | date n | time n | datetime n =>
    simp only [Value.matchesColumn, Value.type, h.type, h.maxSize] at hm ⊢
    exact hm

theorem tableRow_eq_zipWith (texts : ValueTexts) (schema : Schema) {row : TableRow}
    (h : row.values.length = schema.columns.length) :
    tableRow texts schema row = schema.columns.zipWith texts.formatValue row.values := by
  refine List.ext_getElem (by simp [tableRow, h]) fun i hi hi' => ?_
  have hlt : i < schema.columns.length := by
    rw [List.length_zipWith] at hi'
    omega
  simp [tableRow, List.getElem?_eq_getElem hlt]

theorem zipWith_formatValue (numbers : LongDouble) {columns columns' : List Column}
    (hkinds : List.Forall₂ SameKind columns columns') {values : List Value}
    (hvalid : List.Forall₂ ValidIn values columns) :
    columns'.zipWith (sourceTexts numbers).formatValue values =
      columns.zipWith (sourceTexts numbers).formatValue values := by
  induction hkinds generalizing values with
  | nil => rfl
  | @cons c c' columns columns' hkind _ ih =>
    cases hvalid with
    | @cons v _ values _ hv hvalues =>
      rw [List.zipWith_cons_cons, List.zipWith_cons_cons, ih hvalues]
      exact congrArg (· :: _) (formatValue_of_sameKind hkind hv.1)

/-- The merged columns are those of the two tables under other names. -/
theorem sameKind_merged {current right merged : Schema} {type : QueryJoinType} {added : List Column}
    (htype : type ≠ .natural) (hadded : joinColumnsForRightSide current right type = some added)
    (hmerged : mergedJoinSchema current added = some merged) :
    List.Forall₂ SameKind (current.columns ++ right.columns) merged.columns := by
  rw [columns_mergedJoinSchema hmerged]
  refine List.rel_append (List.forall₂_same.mpr fun c _ => .refl c) ?_
  have hfst := addedColumns_fst_of_ne htype (columnNames current) right.columns
  rw [joinColumnsForRightSide_eq] at hadded
  rw [← Option.some.inj hadded, ← hfst, List.forall₂_map_left_iff, List.forall₂_map_right_iff, hfst]
  exact List.forall₂_same.mpr fun c _ => sameKind_renamedColumn c.1 c.2

/-- The texts of the rows of a pair. -/
def pairTexts (texts : ValueTexts) (left right : JoinedTable) (p : TableRow × TableRow) :
    List String :=
  tableRow texts left.schema p.1 ++ tableRow texts right.schema p.2

/-- The row of a pair. -/
def pairRow (p : TableRow × TableRow) : TableRow :=
  { recordId := p.1.recordId, values := p.1.values ++ p.2.values }

theorem tableRow_merged {numbers : LongDouble} {left right : JoinedTable} {merged : Schema}
    (hkinds : List.Forall₂ SameKind (left.schema.columns ++ right.schema.columns) merged.columns)
    {l r : TableRow} (hl : l ∈ left.rows) (hr : r ∈ right.rows) :
    tableRow (sourceTexts numbers) merged (pairRow (l, r)) =
      pairTexts (sourceTexts numbers) left right (l, r) := by
  have hlength : (l.values ++ r.values).length = merged.columns.length := by
    rw [← hkinds.length_eq, List.length_append, List.length_append, length_values hl,
      length_values hr]
  rw [tableRow_eq_zipWith _ merged hlength, pairRow,
    zipWith_formatValue numbers hkinds (List.rel_append (left.valid l hl) (right.valid r hr)),
    List.zipWith_append (length_values hl).symm, pairTexts,
    tableRow_eq_zipWith _ left.schema (length_values hl),
    tableRow_eq_zipWith _ right.schema (length_values hr)]

/-! ## The rows of the joins -/

section Rows

variable {numbers : LongDouble} {command : String} {tables : String → Option JoinedTable}
  {tableName tableAlias : String} {join : QueryJoin} {left right : JoinedTable} {added : List Column}
  {merged : Schema} (hl : tables tableName = some left) (hr : tables join.tableName = some right)
  (hadded : joinColumnsForRightSide left.schema right.schema join.type = some added)
  (hmerged : mergedJoinSchema left.schema added = some merged)

include hl hr hadded hmerged

/-- An inner join has the pairs of which its condition holds. -/
theorem executeJoin_inner_rows (htype : join.type = .inner)
    (hon : OnEvaluates (sourceTexts numbers) command tables tableName tableAlias join left right)
    (hserves : IndexServes tableName tableAlias join left right) :
    ∃ r, executeJoin (storedEnv (sourceTexts numbers) command tables) tableName tableAlias [join] =
        some r ∧ r.isOk = true ∧
      r.rows.Perm (((left.rows ×ˢ right.rows).filter fun p =>
        onHolds (sourceTexts numbers) command tables tableName tableAlias join left right p.1
          p.2).map (pairTexts (sourceTexts numbers) left right)) := by
  have hne : join.type ≠ .natural := by
    rw [htype]
    decide
  have hkinds := sameKind_merged hne hadded hmerged
  have hpadded : paddedRow join (rightTable (storedEnv (sourceTexts numbers) command tables) join
      right.schema added) = fun _ => none := by
    funext l
    rw [paddedRow, htype]
    rfl
  obtain ⟨plain, hplain, hok, hrows⟩ := executeJoin_withoutIndexes_rows hl hr hon hadded hmerged
  rw [hpadded, loop_product, List.map_map] at hrows
  have hsame := (sameRows_iff tableAlias hl hr).mpr
    (@joinsAlike_of_serves (sourceTexts numbers) command _ _ _ _ _ _ hl hr (.inl htype) hserves)
  rw [hplain] at hsame
  cases hexecute : executeJoin (storedEnv (sourceTexts numbers) command tables) tableName tableAlias
      [join] with
  | none =>
    rw [hexecute] at hsame
    exact absurd hsame id
  | some r =>
    rw [hexecute] at hsame
    refine ⟨r, rfl, hsame.1.trans hok, hsame.2.trans ?_⟩
    rw [hrows]
    refine List.Perm.of_eq (List.map_congr_left fun p hp => ?_)
    obtain ⟨hmem, hmem'⟩ := List.mem_product.mp (List.mem_of_mem_filter hp)
    rw [Function.comp_apply, combinedRow, combinedValues_of_ne hne p.1 (length_values hmem')]
    exact tableRow_merged hkinds hmem hmem'

/-- A cross join goes through all pairs. -/
theorem joinStep_cross (htype : join.type = .cross) :
    joinStep (storedEnv (sourceTexts numbers) command tables)
        (firstState (storedEnv (sourceTexts numbers) command tables) tableName tableAlias left.schema)
        join =
      some (.ok
        { rows := (left.rows ×ˢ right.rows).map pairRow
          schema := merged
          aliases := buildJoinAliasMap
            (buildAliasMap (leftAlias tableName tableAlias) left.schema) (rightAlias join) left.schema
            right.schema join.type }) := by
  let env := storedEnv (sourceTexts numbers) command tables
  let state := firstState env tableName tableAlias left.schema
  let table := rightTable env join right.schema added
  have hlrows : state.rows = left.rows :=
    @storedEnv_scanRows (sourceTexts numbers) command _ _ _ hl
  have hrrows : table.rows = right.rows :=
    @storedEnv_scanRows (sourceTexts numbers) command _ _ _ hr
  have hcandidates : candidateRows env state join table = fun _ => right.rows := by
    funext l
    rw [candidateRows, htype, ← hrrows]
    rfl
  have hpadded : paddedRow join table = fun _ => none := by
    funext l
    rw [paddedRow, htype]
    rfl
  have hmatches : pairMatches env state join table = fun _ _ => true := by
    funext l r
    rw [pairMatches, includesRow, htype]
  have hjoined : joinRows env state join table state.rows =
      .ok ((left.rows ×ˢ right.rows).map pairRow) := by
    rw [joinRows_ok env state join table fun l _ r _ => by rw [pairFails, includesRow, htype],
      hcandidates, hpadded, hmatches, hlrows, loop_product, List.filter_true]
    refine congrArg Except.ok (List.map_congr_left fun p hp => ?_)
    obtain ⟨-, hmem'⟩ := List.mem_product.mp hp
    rw [combinedRow, combinedValues_of_ne (by rw [htype]; decide) p.1 (length_values hmem'), pairRow]
  rw [joinStep_added (storedEnv_loadSchema hr) hadded, hjoined, joinedState]
  show (mergedJoinSchema left.schema added).map _ = _
  rw [hmerged]
  rfl

end Rows

end ScratchDb.Select
