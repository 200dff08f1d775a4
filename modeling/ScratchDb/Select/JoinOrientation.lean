import ScratchDb.Select.JoinLookups

/-!
# The sides of an `ON`

Where the operand on the left of `ON l = r` is a column of the left table and the
other one of the right table, the condition compares the columns that the index
is asked about: it fails on no pair, and its matches are the rows with the key.
-/

namespace ScratchDb.Select

open NestedLoop

/-! ## Aliases of one table -/

theorem mem_set {m : AliasMap} {key value : String} {p : String × String}
    (h : p ∈ m.set key value) : p = (key, value) ∨ p ∈ m := by
  rcases List.mem_cons.mp h with rfl | h
  · exact .inl rfl
  · exact .inr (List.mem_of_mem_filter h)

/-- The aliases of a table name its columns. -/
theorem mem_buildAliasMap {alias' : String} {schema : Schema} {p : String × String}
    (h : p ∈ buildAliasMap alias' schema) : p.2 ∈ columnNames schema := by
  have hfold : ∀ (columns : List Column) (m : AliasMap),
      (∀ p ∈ m, p.2 ∈ columnNames schema) → (∀ c ∈ columns, c.name ∈ columnNames schema) →
      ∀ p ∈ columns.foldl (fun (m : AliasMap) c =>
        (if alias' = "" then m else m.set (alias' ++ "." ++ c.name) c.name).set c.name c.name) m,
        p.2 ∈ columnNames schema := by
    intro columns
    induction columns with
    | nil => exact fun m hm _ => hm
    | cons c columns ih =>
      intro m hm hcolumns
      have hc := hcolumns c List.mem_cons_self
      refine ih _ (fun p hp => ?_) fun c' hc' => hcolumns c' (List.mem_cons_of_mem c hc')
      rcases mem_set hp with rfl | hp
      · exact hc
      · split at hp
        · exact hm p hp
        · rcases mem_set hp with rfl | hp
          · exact hc
          · exact hm p hp
  exact hfold schema.columns [] (by simp) (fun c hc => List.mem_map_of_mem hc) p h

theorem mem_of_lookup {m : AliasMap} {key value : String} (h : m.lookup key = some value) :
    (key, value) ∈ m := by
  obtain ⟨before, after, heq, -⟩ := List.lookup_eq_some_iff.mp h
  rw [heq]
  simp

theorem findColumn_of_mem {schema : Schema} {name : String} (h : name ∈ columnNames schema) :
    (schema.findColumn name).isSome = true := by
  obtain ⟨c, hc, rfl⟩ := List.mem_map.mp h
  have hsome : (schema.columnIndex c.name).isSome = true := by
    rw [SchemaParts.columnIndex, List.findIdx?_isSome]
    exact List.any_eq_true.mpr ⟨c, hc, by simp⟩
  obtain ⟨i, hi⟩ := Option.isSome_iff_exists.mp hsome
  obtain ⟨hlt, -⟩ := List.findIdx?_eq_some_iff_getElem.mp hi
  rw [SchemaParts.findColumn, hi, Option.bind_some, List.getElem?_eq_getElem hlt]
  rfl

/-- The operand of a join that an index serves is a column under this name. -/
theorem resolvedJoinColumn_eq_some {e : QueryExpression} {target other : Schema}
    {alias' name : String}
    (h : resolvedJoinColumn e target other (buildAliasMap alias' target) = some name) :
    (∃ tableAlias columnName text position,
      e = .columnReference tableAlias columnName text position ∧
        resolveName (buildAliasMap alias' target) tableAlias columnName = name) ∧
      (target.findColumn name).isSome = true := by
  cases e with
  | columnReference tableAlias columnName text position =>
    rw [resolvedJoinColumn] at h
    by_cases halias : tableAlias = ""
    · rw [if_neg (by simpa using halias)] at h
      split at h
      · cases h
      · rename_i hcolumn
        split at h
        · cases h
        · cases h
          refine ⟨⟨tableAlias, _, text, position, rfl, if_pos halias⟩, ?_⟩
          simpa [Option.isNone_iff_eq_none, Option.isSome_iff_ne_none] using hcolumn
    · rw [if_pos halias] at h
      refine ⟨⟨tableAlias, columnName, text, position, rfl, ?_⟩, ?_⟩
      · rw [resolveName, if_neg halias, h]
        rfl
      · exact findColumn_of_mem (mem_buildAliasMap (mem_of_lookup h))
  | aggregate function tableAlias columnName position => cases h
  | literal text position => cases h
  | scalarSubquery text query position => cases h

/-! ## Values of rows -/

theorem value_of_valid {schema : Schema} {row : TableRow}
    (hvalid : List.Forall₂ ValidIn row.values schema.columns) {name : String} {column : Column}
    (hcolumn : schema.findColumn name = some column) :
    ∃ v, (schema.columnIndex name).bind (fun i => row.values[i]?) = some v ∧ ValidIn v column := by
  obtain ⟨i, hi, hget⟩ := Option.bind_eq_some_iff.mp hcolumn
  obtain ⟨hlt, heq⟩ := List.getElem?_eq_some_iff.mp hget
  have hlt' : i < row.values.length := hvalid.length_eq ▸ hlt
  refine ⟨row.values[i], ?_, ?_⟩
  · rw [hi, Option.bind_some, List.getElem?_eq_getElem hlt']
  · rw [← heq]
    exact hvalid.get hlt' hlt

/-! ## The condition of the join -/

/-- The operand on the left is a column of the left table, the other one of the right table. -/
structure NamesLeftFirst (condition : Option QueryCondition) (left right : Schema)
    (leftAlias rightAlias leftColumn rightColumn : String) : Prop where
  equated : ∃ l r, condition = some (.comparison l .equal r) ∧
    resolvedJoinColumn l left right (buildAliasMap leftAlias left) = some leftColumn ∧
    resolvedJoinColumn r right left (buildAliasMap rightAlias right) = some rightColumn

section

variable {env : SelectEnv} {join : QueryJoin} {left right : Schema}
  {leftAlias rightAlias leftColumn rightColumn : String} {rows rightRows : List TableRow}
  {addedColumns : List Column}

theorem NamesLeftFirst.lookup
    (h : NamesLeftFirst join.condition left right leftAlias rightAlias leftColumn rightColumn) :
    indexedJoinLookup join.condition left right (buildAliasMap leftAlias left)
      (buildAliasMap rightAlias right) = some (leftColumn, rightColumn) := by
  obtain ⟨l, r, hcondition, hl, hr⟩ := h.equated
  rw [hcondition, indexedJoinLookup, hl, hr]

/-- The condition compares the two columns. -/
theorem NamesLeftFirst.matches
    (h : NamesLeftFirst join.condition left right leftAlias rightAlias leftColumn rightColumn)
    (texts : ValueTexts) {l r : TableRow} {condition : QueryCondition}
    (hcondition : join.condition = some condition)
    (hl : List.Forall₂ ValidIn l.values left.columns)
    (hr : List.Forall₂ ValidIn r.values right.columns) :
    ∃ v w column, joinConditionMatches texts ⟨left, buildAliasMap leftAlias left, l⟩
        ⟨right, buildAliasMap rightAlias right, r⟩ condition =
          .ok (Value.compareValues v w == .eq) ∧
      (left.columnIndex leftColumn).bind (fun i => l.values[i]?) = some v ∧
      right.findColumn rightColumn = some column ∧
      (right.columnIndex rightColumn).bind (fun i => r.values[i]?) = some w ∧
      v.Representable ∧ ValidIn w column := by
  obtain ⟨el, er, heq, hel, her⟩ := h.equated
  rw [heq] at hcondition
  cases hcondition
  obtain ⟨⟨alias₁, name₁, text₁, position₁, rfl, hname₁⟩, hcolumn₁⟩ := resolvedJoinColumn_eq_some hel
  obtain ⟨⟨alias₂, name₂, text₂, position₂, rfl, hname₂⟩, hcolumn₂⟩ := resolvedJoinColumn_eq_some her
  obtain ⟨column₁, hcolumn₁⟩ := Option.isSome_iff_exists.mp hcolumn₁
  obtain ⟨column₂, hcolumn₂⟩ := Option.isSome_iff_exists.mp hcolumn₂
  obtain ⟨v, hv, hvalid₁⟩ := value_of_valid hl hcolumn₁
  obtain ⟨w, hw, hvalid₂⟩ := value_of_valid hr hcolumn₂
  refine ⟨v, w, column₂, ?_, hv, hcolumn₂, hw, hvalid₁.2, hvalid₂⟩
  have hleft : JoinSide.value ⟨left, buildAliasMap leftAlias left, l⟩ leftColumn = some v := hv
  have hright : JoinSide.value ⟨right, buildAliasMap rightAlias right, r⟩ rightColumn = some w := hw
  rw [joinConditionMatches, joinComparisonMatches]
  dsimp only
  rw [hname₁, hcolumn₁]
  dsimp only
  rw [hleft]
  dsimp only
  rw [compareLeftColumn]
  dsimp only
  rw [hname₂, hcolumn₂]
  dsimp only
  rw [hright]
  rfl

end

/-! ## Why the index changes nothing -/

section Stored

variable {texts : ValueTexts} {command : String} {tables : String → Option JoinedTable}
  {tableName tableAlias : String} {join : QueryJoin} {left right : JoinedTable}

/-- The alias of the left table. -/
def leftAlias (tableName tableAlias : String) : String :=
  if tableAlias = "" then tableName else tableAlias

/-- The statement does not ask the index, or asks it about the columns that the condition compares
and finds every row of a key. -/
def IndexServes (tableName tableAlias : String) (join : QueryJoin) (left right : JoinedTable) :
    Prop :=
  indexedJoinLookup join.condition left.schema right.schema
      (buildAliasMap (leftAlias tableName tableAlias) left.schema)
      (buildAliasMap (rightAlias join) right.schema) = none ∨
    right.Mirrored ∧ ∃ leftColumn rightColumn,
      NamesLeftFirst join.condition left.schema right.schema (leftAlias tableName tableAlias)
        (rightAlias join) leftColumn rightColumn

section Rows

variable {env : SelectEnv} {state : JoinState} {join : QueryJoin} {table : RightTable}
  {l r : TableRow}

theorem candidateRows_of_noLookup
    (h : indexedJoinLookup join.condition state.schema table.schema state.aliases table.aliases =
      none) : candidateRows env state join table l = table.rows := by
  unfold candidateRows
  rw [h, ite_self]

theorem candidateRows_of_lookup (htype : join.type = .inner ∨ join.type = .left)
    {leftColumn rightColumn : String} {v : Value}
    (h : indexedJoinLookup join.condition state.schema table.schema state.aliases table.aliases =
      some (leftColumn, rightColumn))
    (hv : JoinSide.value ⟨state.schema, state.aliases, l⟩ leftColumn = some v) :
    candidateRows env state join table l =
      (env.findRowsByIndex join.tableName rightColumn v).getD table.rows := by
  unfold candidateRows
  rw [h, if_pos htype]
  dsimp only
  rw [hv]

theorem includesRow_of_condition (htype : join.type = .inner ∨ join.type = .left)
    {condition : QueryCondition} {matched : Bool} (hcondition : join.condition = some condition)
    (h : joinConditionMatches env.texts ⟨state.schema, state.aliases, l⟩
      ⟨table.schema, table.aliases, r⟩ condition = .ok matched) :
    includesRow env state join table l r = .ok matched := by
  unfold includesRow
  dsimp only
  rw [hcondition]
  rcases htype with htype | htype
  · rw [htype]
    dsimp only
    rw [h]
  · rw [htype]
    dsimp only
    rw [h]

end Rows

theorem missesNothing_of_all {env : SelectEnv} {state : JoinState} {table : RightTable}
    (h : ∀ l ∈ state.rows, candidateRows env state join table l = table.rows) :
    MissesNothing env state join table := by
  by_cases hfails : ∃ l ∈ state.rows, ∃ r ∈ table.rows, pairFails env state join table l r = true
  · obtain ⟨l, hl, r, hr, hpair⟩ := hfails
    exact .inl ⟨l, hl, r, by rw [h l hl]; exact hr, hpair⟩
  · refine .inr ⟨fun l hl r hr => ?_, fun merged _ l hl => .inl fun r hr _ => ?_⟩
    · by_contra hne
      exact hfails ⟨l, hl, r, hr, by simpa using hne⟩
    · rw [h l hl]
      exact hr

theorem joinsAlike_of_serves (hl : tables tableName = some left)
    (hr : tables join.tableName = some right) (htype : join.type = .inner ∨ join.type = .left)
    (h : IndexServes tableName tableAlias join left right) :
    JoinsAlike (storedEnv texts command tables) tableName tableAlias join left.schema
      right.schema := by
  intro addedColumns _
  let env := storedEnv texts command tables
  let state := firstState env tableName tableAlias left.schema
  let table := rightTable env join right.schema addedColumns
  have hlrows : state.rows = left.rows := @storedEnv_scanRows texts command tables _ _ hl
  have hrrows : table.rows = right.rows := @storedEnv_scanRows texts command tables _ _ hr
  rcases h with hnone | ⟨hmirrored, leftColumn, rightColumn, hnames⟩
  · refine missesNothing_of_all fun l _ => ?_
    exact candidateRows_of_noLookup hnone
  · -- No pair fails, and a match has the key of the left value.
    cases hcondition : join.condition with
    | none =>
      obtain ⟨l, r, heq, -⟩ := hnames.equated
      rw [hcondition] at heq
      cases heq
    | some condition =>
      have hpair : ∀ l ∈ state.rows, ∀ r ∈ table.rows, ∃ v w column,
          includesRow env state join table l r = .ok (Value.compareValues v w == .eq) ∧
          JoinSide.value ⟨state.schema, state.aliases, l⟩ leftColumn = some v ∧
          right.schema.findColumn rightColumn = some column ∧
          right.value r rightColumn = some w ∧ v.Representable ∧ ValidIn w column := by
        intro l hmem r hmem'
        obtain ⟨v, w, column, hmatches, hv, hcolumn, hw, hvalid⟩ := hnames.matches texts hcondition
          (left.valid l (hlrows ▸ hmem)) (right.valid r (hrrows ▸ hmem'))
        exact ⟨v, w, column, includesRow_of_condition htype hcondition hmatches, hv, hcolumn, hw,
          hvalid⟩
      refine .inr ⟨fun l hmem r hmem' => ?_, fun merged _ l hmem => .inl fun r hmem' hmatch => ?_⟩
      · obtain ⟨v, w, column, hincluded, -⟩ := hpair l hmem r hmem'
        rw [pairFails, hincluded]
      · obtain ⟨v, w, column, hincluded, hv, hcolumn, hw, hrepresentable, hvalid⟩ :=
          hpair l hmem r hmem'
        rw [pairMatches, hincluded] at hmatch
        have heq : Value.compareValues v w = .eq := by simpa using hmatch
        rw [candidateRows_of_lookup htype hnames.lookup hv]
        show r ∈ (env.findRowsByIndex join.tableName rightColumn v).getD table.rows
        cases hfound : env.findRowsByIndex join.tableName rightColumn v with
        | none => exact hmem'
        | some rows =>
          have hfound' : (tables join.tableName).bind
              (fun t => t.findRowsByIndex rightColumn v) = some rows := hfound
          rw [hr, Option.bind_some] at hfound'
          exact JoinedTable.mem_findRowsByIndex hmirrored hcolumn hfound' (hrrows ▸ hmem') hw hvalid
            hrepresentable heq

end Stored

/-- A join returns the same rows with and without the indexes of the right table exactly if the
index leaves out no row that changes the result; it leaves out none where `ON` names the column of
the left table first and the index mirrors its table. -/
theorem executeJoin_withoutIndexes (texts : ValueTexts) (command : String)
    (tables : String → Option JoinedTable) (tableName tableAlias : String) (join : QueryJoin)
    (left right : JoinedTable) (hl : tables tableName = some left)
    (hr : tables join.tableName = some right) (htype : join.type = .inner ∨ join.type = .left) :
    (SameRows (executeJoin (storedEnv texts command tables) tableName tableAlias [join])
        (executeJoin (storedEnv texts command tables).withoutIndexes tableName tableAlias [join]) ↔
      JoinsAlike (storedEnv texts command tables) tableName tableAlias join left.schema
        right.schema) ∧
    (IndexServes tableName tableAlias join left right →
      JoinsAlike (storedEnv texts command tables) tableName tableAlias join left.schema
        right.schema) :=
  ⟨sameRows_iff tableAlias hl hr, joinsAlike_of_serves hl hr htype⟩

/-! ## Two tables of one row -/

def oneColumn (tableName columnName : String) (indexes : List IndexDefinition) : SchemaParts where
  tableName := tableName
  columns := [⟨columnName, .integer, true, 8, 0, 0⟩]
  constraints := []
  indexes := indexes
  storageMode := .disk

def oneRow (n : Int) : TableRow := ⟨⟨1, 0⟩, [.integer n]⟩

theorem oneRow_valid {n : Int} {columnName : String} (h : -2 ^ 63 ≤ n ∧ n < 2 ^ 63) :
    ∀ row ∈ [oneRow n],
      List.Forall₂ ValidIn row.values [⟨columnName, .integer, true, 8, 0, 0⟩] := by
  intro row hrow
  cases List.mem_singleton.mp hrow
  exact .cons ⟨rfl, h⟩ .nil

/-- Table `a` with `x = 1`. -/
def leftNumbers : JoinedTable where
  schema := ⟨oneColumn "a" "x" [], by decide, by decide, by decide, by decide⟩
  rows := [oneRow 1]
  find := fun _ _ => []
  valid := oneRow_valid (by decide)
  distinctIds := by decide
  foundOnce := fun _ _ => .nil

/-- Table `b` with `y = 2` and an index on `y`. -/
def rightNumbers : JoinedTable where
  schema := ⟨oneColumn "b" "y" [⟨1, "i", ["y"], false⟩], by decide, by decide, by decide, by decide⟩
  rows := [oneRow 2]
  find := fun _ key => if key = (Value.integer 2).keyBytes then [⟨1, 0⟩] else []
  valid := oneRow_valid (by decide)
  distinctIds := by decide
  foundOnce := fun _ key => by
    split
    · exact List.nodup_singleton _
    · exact .nil

def numbersTables (name : String) : Option JoinedTable :=
  if name = "a" then some leftNumbers else if name = "b" then some rightNumbers else none

def columnX : QueryExpression := .columnReference "a" "x" "a.x" 0

def columnY : QueryExpression := .columnReference "b" "y" "b.y" 0

/-- `FROM a INNER JOIN b ON left = right`. -/
def joinOn (left right : QueryExpression) : QueryJoin where
  type := .inner
  tableName := "b"
  tableAlias := ""
  condition := some (.comparison left .equal right)

theorem rightNumbers_mirrored : rightNumbers.Mirrored := by
  intro index hindex columnName hcolumns row hrow v hv
  cases List.mem_singleton.mp hindex
  cases hcolumns
  cases List.mem_singleton.mp hrow
  have hvalue : v = .integer 2 := by
    have hstored : rightNumbers.value (oneRow 2) "y" = some (.integer 2) := by decide
    rw [hstored] at hv
    exact (Option.some.inj hv).symm
  rw [hvalue]
  decide

theorem executeJoin_withoutIndexes_leftFirst :
    SameRows (executeJoin (storedEnv integerTexts "" numbersTables) "a" "" [joinOn columnX columnY])
      (executeJoin (storedEnv integerTexts "" numbersTables).withoutIndexes "a" ""
        [joinOn columnX columnY]) := by
  have hboth := executeJoin_withoutIndexes integerTexts "" numbersTables "a" ""
    (joinOn columnX columnY) leftNumbers rightNumbers rfl rfl (.inl rfl)
  exact hboth.1.mpr (hboth.2 (.inr ⟨rightNumbers_mirrored, "x", "y",
    ⟨columnX, columnY, rfl, by decide, by decide⟩⟩))

/-- `ON b.y = a.x`: no row has the key, and so the index keeps the condition from failing. -/
theorem rightFirst_notSame :
    ¬ SameRows (executeJoin (storedEnv integerTexts "" numbersTables) "a" "" [joinOn columnY columnX])
      (executeJoin (storedEnv integerTexts "" numbersTables).withoutIndexes "a" ""
        [joinOn columnY columnX]) := by
  have hindexed : (executeJoin (storedEnv integerTexts "" numbersTables) "a" ""
      [joinOn columnY columnX]).map (·.isOk) = some true := by decide +kernel
  have hplain : (executeJoin (storedEnv integerTexts "" numbersTables).withoutIndexes "a" ""
      [joinOn columnY columnX]).map (·.isOk) = some false := by decide +kernel
  obtain ⟨r, hr, hok⟩ := Option.map_eq_some_iff.mp hindexed
  obtain ⟨r', hr', hok'⟩ := Option.map_eq_some_iff.mp hplain
  rw [hr, hr']
  rintro ⟨hsame, -⟩
  rw [hok, hok'] at hsame
  cases hsame

end ScratchDb.Select
