import ScratchDb.Select.QualifiedNames

/-!
# The operands of an `ON`

`join_condition_matches` of `src/query/query_executor.cpp` looks for the left
operand of a comparison among the columns joined so far and for the right one
among the columns of the new table. A qualified name that is not known there is
tried without its alias, and where the left operand then comes from the new table
the right one is read as a literal.
-/

namespace ScratchDb.Select

/-! ## Columns as operands -/

/-- A qualified column reference, with its place among the columns of the tables. -/
structure OnOperand where
  place : Nat
  origin : String × Column
  text : String
  position : Nat

def OnOperand.reference (a : OnOperand) : QueryExpression :=
  .columnReference a.origin.1 a.origin.2.name a.text a.position

def OnOperand.Names (sources : List Source) (a : OnOperand) : Prop :=
  (origins sources)[a.place]? = some a.origin

def QueryJoin.onComparison (join : QueryJoin) (left : OnOperand) (op : QueryOperator)
    (right : OnOperand) : QueryJoin :=
  { join with condition := some (.comparison left.reference op right.reference) }

/-- The value at a place of a pair of rows. -/
def pairValue (l r : TableRow) (place : Nat) : Value := ((l.values ++ r.values)[place]?).getD .null

def comparePlaces (l r : TableRow) (i : Nat) (op : QueryOperator) (j : Nat) : Bool :=
  compareWithOperator (Value.compareValues (pairValue l r i) (pairValue l r j)) op

section Comparison

variable (texts : ValueTexts) (state : JoinState) (new : Source)

/-- What the comparison says of a pair of rows. -/
def onOutcome (left : OnOperand) (op : QueryOperator) (right : OnOperand) (l r : TableRow) :
    Except QueryError Bool :=
  joinComparisonMatches texts ⟨state.schema, state.aliases, l⟩
    ⟨new.table.schema, buildAliasMap new.tableAlias new.table.schema, r⟩ left.reference op
    right.reference

/-- The operator is evaluated on the values of the two columns. -/
def MeansItsColumns (left : OnOperand) (op : QueryOperator) (right : OnOperand) (l r : TableRow) :
    Prop :=
  onOutcome texts state new left op right l r = .ok (comparePlaces l r left.place op right.place)

/-- The left operand is found if it is a column of the tables joined so far, or if a merged column
has its bare name. -/
def leftPlace (a : OnOperand) : Option Nat :=
  if a.place < state.schema.columns.length then some a.place
  else state.schema.columnIndex a.origin.2.name

/-- The right operand is found if it is a column of the new table, or if a column of the new table
has its bare name. -/
def rightPlace (a : OnOperand) : Option Nat :=
  if a.place < state.schema.columns.length then
    (new.table.schema.columnIndex a.origin.2.name).map (state.schema.columns.length + ·)
  else some a.place

/-- What is found in place of the operands compares as the operands do: the two columns, or the
column of the new table with the text of the right operand as its literal. -/
def FoundCompareAlike (left : OnOperand) (op : QueryOperator) (right : OnOperand) (l r : TableRow) :
    Prop :=
  match leftPlace state left with
  | some i =>
    ∃ j, rightPlace state new right = some j ∧
      comparePlaces l r i op j = comparePlaces l r left.place op right.place
  | none =>
    ∃ value, texts.parseValue left.origin.2 right.text right.position = .ok value ∧
      compareWithOperator (Value.compareValues (pairValue l r left.place) value) op =
        comparePlaces l r left.place op right.place

end Comparison

/-! ## Where the operands are found -/

theorem columnIndex_getElem (schema : Schema) {i : Nat} (hi : i < schema.columns.length) :
    schema.columnIndex schema.columns[i].name = some i := by
  have hindex := (@findIdx?_tableColumns schema i hi i).mpr rfl
  rw [tableColumns, List.findIdx?_map] at hindex
  exact hindex

theorem findColumn_getElem (schema : Schema) {i : Nat} (hi : i < schema.columns.length) :
    schema.findColumn schema.columns[i].name = some schema.columns[i] := by
  rw [SchemaParts.findColumn, columnIndex_getElem schema hi, Option.bind_some,
    List.getElem?_eq_getElem hi]

theorem dotless_entries (schema : Schema) :
    ∀ e ∈ schema.columns.map (fun c => (c.name, c.name)), '.' ∉ e.1.toList := by
  intro e he
  obtain ⟨c, hc, rfl⟩ := List.mem_map.mp he
  exact dotless_column schema hc

/-- A column behind the alias of its own table. -/
theorem lookup_buildAliasMap {tableAlias : String} (hvalid : Column.isValidName tableAlias = true)
    {schema : Schema} {c : Column} (hc : c ∈ schema.columns) :
    (buildAliasMap tableAlias schema).lookup (dotted tableAlias c.name) = some c.name := by
  have hnodup : ((schema.columns.map fun c => (c.name, c.name)).map (·.1)).Nodup := by
    rw [List.map_map]
    exact schema.columnsValid.2.2.2
  rw [buildAliasMap_eq]
  exact lookup_addAliases (ne_empty_of_isValidName hvalid) (dotless_entries schema)
    (dot_not_mem hvalid) hnodup (List.mem_map.mpr ⟨c, hc, rfl⟩)

theorem resolveName_of_lookup {aliases : AliasMap} {tableAlias columnName name : String}
    (halias : tableAlias ≠ "") (h : aliases.lookup (dotted tableAlias columnName) = some name) :
    resolveName aliases tableAlias columnName = name := by
  rw [resolveName, if_neg halias]
  exact congrArg (fun o => Option.getD o columnName) h

theorem resolveName_of_unknown {aliases : AliasMap} {tableAlias columnName : String}
    (h : aliases.lookup (dotted tableAlias columnName) = none) :
    resolveName aliases tableAlias columnName = columnName := by
  rw [resolveName]
  split
  · rfl
  · exact congrArg (fun o => Option.getD o columnName) h

section Resolved

variable {sources : List Source} {state : JoinState} {new : Source} {a : OnOperand}
  (h : Carried sources state) (haliases : DistinctAliases (sources ++ [new]))
  (hnames : a.Names (sources ++ [new]))

/-- A column of the tables joined so far. -/
theorem OnOperand.Names.joined (hnames : a.Names (sources ++ [new]))
    (hplace : a.place < (origins sources).length) : (origins sources)[a.place]? = some a.origin := by
  rw [OnOperand.Names, origins_append, List.getElem?_append_left hplace] at hnames
  exact hnames

/-- A column of the new table. -/
theorem OnOperand.Names.added (hnames : a.Names (sources ++ [new]))
    (hplace : (origins sources).length ≤ a.place) :
    a.origin.1 = new.tableAlias ∧
      new.table.schema.columns[a.place - (origins sources).length]? = some a.origin.2 := by
  rw [OnOperand.Names, origins_append, List.getElem?_append_right hplace, List.getElem?_map] at hnames
  obtain ⟨column, hcolumn, heq⟩ := Option.map_eq_some_iff.mp hnames
  rw [← heq]
  exact ⟨rfl, hcolumn⟩

include haliases

/-- The alias of the new table is none of the earlier ones. -/
theorem alias_new {o : String × Column} (ho : o ∈ origins sources) : o.1 ≠ new.tableAlias := by
  obtain ⟨s, hs, halias, -⟩ := mem_origins.mp ho
  have hdisjoint := List.nodup_append.mp (List.map_append ▸ haliases.nodup)
  rw [halias]
  exact hdisjoint.2.2 s.tableAlias (List.mem_map.mpr ⟨s, hs, rfl⟩) new.tableAlias
    (List.mem_map.mpr ⟨new, List.mem_singleton_self new, rfl⟩)

theorem validAlias_old {o : String × Column} (ho : o ∈ origins sources) :
    Column.isValidName o.1 = true := by
  obtain ⟨s, hs, halias, -⟩ := mem_origins.mp ho
  rw [halias]
  exact haliases.names s (List.mem_append_left _ hs)

theorem validAlias_new : Column.isValidName new.tableAlias = true :=
  haliases.names new (List.mem_append_right _ (List.mem_singleton_self new))

/-- No column of the tables joined so far is behind the alias of the new table. -/
theorem lookup_joined (hnames : a.Names (sources ++ [new]))
    (hplace : a.place < (origins sources).length) :
    (buildAliasMap new.tableAlias new.table.schema).lookup (dotted a.origin.1 a.origin.2.name) =
      none := by
  have hvalid := validAlias_new haliases
  have horigin := List.mem_of_getElem? (hnames.joined hplace)
  rw [buildAliasMap_eq]
  by_contra hne
  obtain ⟨value, hvalue⟩ := Option.ne_none_iff_exists'.mp hne
  rcases lookup_addAliases_cases (ne_empty_of_isValidName hvalid)
    (dotless_entries new.table.schema) (dot_mem_dotted _ _) hvalue with hold | ⟨e, -, hkey⟩
  · cases hold
  · refine alias_new haliases horigin ?_
    exact (dotted_inj (dot_not_mem (validAlias_old haliases horigin)) (dot_not_mem hvalid) hkey).1

include h hnames

/-- No column of the new table is behind an alias of the tables joined so far. -/
theorem lookup_added (hplace : (origins sources).length ≤ a.place) :
    state.aliases.lookup (dotted a.origin.1 a.origin.2.name) = none := by
  obtain ⟨halias, -⟩ := hnames.added hplace
  by_contra hne
  obtain ⟨value, hvalue⟩ := Option.ne_none_iff_exists'.mp hne
  obtain ⟨o, ho, hkey⟩ := h.known _ value (dot_mem_dotted _ _) hvalue
  rw [halias] at hkey
  refine alias_new haliases ho ?_
  exact (dotted_inj (dot_not_mem (validAlias_new haliases))
    (dot_not_mem (validAlias_old haliases ho)) hkey).1.symm

/-- The left operand among the columns joined so far. -/
theorem columnIndex_left :
    state.schema.columnIndex (resolveName state.aliases a.origin.1 a.origin.2.name) =
      leftPlace state a := by
  have hlength := h.columns.length_eq
  by_cases hplace : a.place < (origins sources).length
  · have horigin := hnames.joined hplace
    have hlt : a.place < state.schema.columns.length := hlength ▸ hplace
    have hcolumn := (List.forall₂_iff_get.mp h.columns).2 a.place hplace hlt
    have hget : (origins sources)[a.place] = a.origin := by
      rw [List.getElem?_eq_getElem hplace] at horigin
      exact Option.some.inj horigin
    simp only [List.get_eq_getElem, hget] at hcolumn
    have hvalid := validAlias_old haliases (List.mem_of_getElem? horigin)
    rw [resolveName_of_lookup (ne_empty_of_isValidName hvalid) hcolumn.2, leftPlace, if_pos hlt]
    exact columnIndex_getElem state.schema hlt
  · have hunknown := lookup_added h haliases hnames (Nat.le_of_not_lt hplace)
    rw [resolveName_of_unknown hunknown, leftPlace, if_neg (hlength ▸ hplace)]

/-- The right operand among the columns of the new table. -/
theorem columnIndex_right :
    (new.table.schema.columnIndex (resolveName (buildAliasMap new.tableAlias new.table.schema)
      a.origin.1 a.origin.2.name)).map (state.schema.columns.length + ·) = rightPlace state new a := by
  have hlength := h.columns.length_eq
  have hvalid := validAlias_new haliases
  by_cases hplace : a.place < (origins sources).length
  · have hunknown := lookup_joined haliases hnames hplace
    rw [resolveName_of_unknown hunknown, rightPlace, if_pos (hlength ▸ hplace)]
  · obtain ⟨halias, hcolumn⟩ := hnames.added (Nat.le_of_not_lt hplace)
    obtain ⟨hlt, hget⟩ := List.getElem?_eq_some_iff.mp hcolumn
    have hlookup := lookup_buildAliasMap hvalid (List.mem_of_getElem? hcolumn)
    rw [halias, resolveName_of_lookup (ne_empty_of_isValidName hvalid) hlookup, rightPlace,
      if_neg (hlength ▸ hplace), ← hget, columnIndex_getElem new.table.schema hlt, Option.map_some]
    exact congrArg some (by omega)

end Resolved

/-! ## What the comparison says -/

theorem pairValue_left {l r : TableRow} {i : Nat} (hi : i < l.values.length) :
    l.values[i]? = some (pairValue l r i) := by
  rw [pairValue, List.getElem?_append_left hi, List.getElem?_eq_getElem hi, Option.getD_some]

theorem pairValue_right {l r : TableRow} {k : Nat} (hk : k < r.values.length) :
    r.values[k]? = some (pairValue l r (l.values.length + k)) := by
  rw [pairValue, List.getElem?_append_right (by omega), Nat.add_sub_cancel_left,
    List.getElem?_eq_getElem hk, Option.getD_some]

theorem findColumn_of_columnIndex {schema : Schema} {name : String} {i : Nat}
    (h : schema.columnIndex name = some i) :
    ∃ hi : i < schema.columns.length, schema.findColumn name = some schema.columns[i] := by
  obtain ⟨hi, -⟩ := List.findIdx?_eq_some_iff_getElem.mp h
  refine ⟨hi, ?_⟩
  rw [SchemaParts.findColumn, h, Option.bind_some, List.getElem?_eq_getElem hi]

theorem findColumn_of_unknown {schema : Schema} {name : String} (h : schema.columnIndex name = none) :
    schema.findColumn name = none := by
  rw [SchemaParts.findColumn, h, Option.bind_none]

section Outcomes

variable {texts : ValueTexts} {sources : List Source} {state : JoinState} {new : Source}
  {left right : OnOperand} {op : QueryOperator} {l r : TableRow}
  (h : Carried sources state) (haliases : DistinctAliases (sources ++ [new]))
  (hleft : left.Names (sources ++ [new])) (hright : right.Names (sources ++ [new]))
  (hl : l.values.length = state.schema.columns.length)
  (hr : r.values.length = new.table.schema.columns.length)

include h haliases hleft hright hl

section Found

variable {i : Nat} (hi : leftPlace state left = some i)

include hi

theorem onOutcome_left :
    ∃ column, onOutcome texts state new left op right l r =
      compareLeftColumn texts column (pairValue l r i)
        ⟨new.table.schema, buildAliasMap new.tableAlias new.table.schema, r⟩ op right.reference := by
  have hindex := (columnIndex_left h haliases hleft).trans hi
  obtain ⟨hlt, hcolumn⟩ := findColumn_of_columnIndex hindex
  have hvalue : JoinSide.value ⟨state.schema, state.aliases, l⟩
      (resolveName state.aliases left.origin.1 left.origin.2.name) = some (pairValue l r i) := by
    rw [JoinSide.value, hindex, Option.bind_some]
    exact pairValue_left (hl ▸ hlt)
  refine ⟨state.schema.columns[i], ?_⟩
  rw [onOutcome, OnOperand.reference, joinComparisonMatches]
  dsimp only
  rw [hcolumn]
  dsimp only
  rw [hvalue]

theorem onOutcome_unknown (hj : rightPlace state new right = none) :
    onOutcome texts state new left op right l r =
      .error (queryError "unknown column" right.origin.2.name "" right.position) := by
  obtain ⟨column, houtcome⟩ := @onOutcome_left texts sources state new left right op l r h haliases
    hleft hright hl i hi
  have hindex := (columnIndex_right h haliases hright).trans hj
  have hnone := findColumn_of_unknown (Option.map_eq_none_iff.mp hindex)
  rw [houtcome, OnOperand.reference, compareLeftColumn]
  dsimp only
  rw [hnone]

include hr

theorem onOutcome_found {j : Nat} (hj : rightPlace state new right = some j) :
    onOutcome texts state new left op right l r = .ok (comparePlaces l r i op j) := by
  obtain ⟨column, houtcome⟩ := @onOutcome_left texts sources state new left right op l r h haliases
    hleft hright hl i hi
  have hindex := (columnIndex_right h haliases hright).trans hj
  obtain ⟨k, hk, rfl⟩ := Option.map_eq_some_iff.mp hindex
  obtain ⟨hlt, hcolumn⟩ := findColumn_of_columnIndex hk
  have hvalue : JoinSide.value
      ⟨new.table.schema, buildAliasMap new.tableAlias new.table.schema, r⟩
      (resolveName (buildAliasMap new.tableAlias new.table.schema) right.origin.1
        right.origin.2.name) = some (pairValue l r (state.schema.columns.length + k)) := by
    rw [JoinSide.value, hk, Option.bind_some, ← hl]
    exact pairValue_right (hr ▸ hlt)
  rw [houtcome, OnOperand.reference, compareLeftColumn]
  dsimp only
  rw [hcolumn]
  dsimp only
  rw [hvalue, comparePlaces]

end Found

include hr

/-- The text of the right operand is read as a value of the column on the left. -/
theorem onOutcome_literal (hi : leftPlace state left = none) :
    ∃ side name, side.value name = some (pairValue l r left.place) ∧
      onOutcome texts state new left op right l r =
        compareRightColumn texts left.origin.2 side name left.origin.2.name left.position op
          right.reference := by
  have hunknown := findColumn_of_unknown ((columnIndex_left h haliases hleft).trans hi)
  have hplace : ¬ left.place < state.schema.columns.length := by
    intro hlt
    rw [leftPlace, if_pos hlt] at hi
    cases hi
  have hfound : rightPlace state new left = some left.place := if_neg hplace
  have hindex := (columnIndex_right h haliases hleft).trans hfound
  obtain ⟨k, hk, hsum⟩ := Option.map_eq_some_iff.mp hindex
  obtain ⟨hlt, hcolumn⟩ := findColumn_of_columnIndex hk
  have horigin : new.table.schema.columns[k] = left.origin.2 := by
    obtain ⟨-, hget⟩ := hleft.added (h.columns.length_eq ▸ Nat.le_of_not_lt hplace)
    rw [h.columns.length_eq, show left.place - state.schema.columns.length = k by omega,
      List.getElem?_eq_getElem hlt] at hget
    exact Option.some.inj hget
  refine ⟨⟨new.table.schema, buildAliasMap new.tableAlias new.table.schema, r⟩,
    resolveName (buildAliasMap new.tableAlias new.table.schema) left.origin.1 left.origin.2.name,
    ?_, ?_⟩
  · rw [JoinSide.value, hk, Option.bind_some, ← hsum, ← hl]
    exact pairValue_right (hr ▸ hlt)
  · rw [onOutcome, OnOperand.reference, joinComparisonMatches]
    dsimp only
    rw [hunknown]
    dsimp only
    rw [hcolumn, horigin]

/-- The operator is evaluated on the values of the two columns exactly if what is found in place of
the operands compares alike. -/
theorem meansItsColumns_iff :
    MeansItsColumns texts state new left op right l r ↔
      FoundCompareAlike texts state new left op right l r := by
  cases hi : leftPlace state left with
  | some i =>
    rw [FoundCompareAlike, hi, MeansItsColumns]
    dsimp only
    cases hj : rightPlace state new right with
    | some j =>
      rw [onOutcome_found h haliases hleft hright hl hr hi hj]
      constructor
      · intro heq
        exact ⟨j, rfl, Except.ok.inj heq⟩
      · rintro ⟨j', hj', heq⟩
        cases hj'
        rw [heq]
    | none =>
      rw [onOutcome_unknown h haliases hleft hright hl hi hj]
      constructor
      · intro heq
        cases heq
      · rintro ⟨j', hj', -⟩
        cases hj'
  | none =>
    obtain ⟨side, name, hvalue, houtcome⟩ := @onOutcome_literal texts sources state new left right op
      l r h haliases hleft hright hl hr hi
    rw [FoundCompareAlike, hi, MeansItsColumns, houtcome, compareRightColumn, hvalue]
    have htext : right.reference.literalText = right.text := rfl
    have hposition : right.reference.position = right.position := rfl
    dsimp only
    rw [htext, hposition]
    cases hparse : texts.parseValue left.origin.2 right.text right.position with
    | error e =>
      constructor
      · intro heq
        cases heq
      · rintro ⟨value, hvalue, -⟩
        cases hvalue
    | ok value =>
      constructor
      · intro heq
        exact ⟨value, rfl, Except.ok.inj heq⟩
      · rintro ⟨value', hvalue, heq⟩
        cases hvalue
        dsimp only
        rw [heq]

end Outcomes

/-! ## Both ways of writing -/

section Swapped

variable (texts : ValueTexts) (state : JoinState) (new : Source)

/-- Whichever operand stands on the left, the comparison means its columns, and it holds of the
same pairs. -/
structure MeansEitherWay (left : OnOperand) (op : QueryOperator) (right : OnOperand) : Prop where
  written : ∀ l ∈ state.rows, ∀ r ∈ new.table.rows, MeansItsColumns texts state new left op right l r
  swapped : ∀ l ∈ state.rows, ∀ r ∈ new.table.rows,
    MeansItsColumns texts state new right (flippedOperator op) left l r
  same : ∀ l ∈ state.rows, ∀ r ∈ new.table.rows,
    onOutcome texts state new right (flippedOperator op) left l r =
      onOutcome texts state new left op right l r

/-- What is found in place of the operands compares as they do, and the values compare alike both
ways. -/
structure AlikeEitherWay (left : OnOperand) (op : QueryOperator) (right : OnOperand) : Prop where
  written : ∀ l ∈ state.rows, ∀ r ∈ new.table.rows, FoundCompareAlike texts state new left op right l r
  swapped : ∀ l ∈ state.rows, ∀ r ∈ new.table.rows,
    FoundCompareAlike texts state new right (flippedOperator op) left l r
  flipped : ∀ l ∈ state.rows, ∀ r ∈ new.table.rows,
    comparePlaces l r right.place (flippedOperator op) left.place =
      comparePlaces l r left.place op right.place

end Swapped

theorem matchedRows_congr {env : SelectEnv} {state : JoinState} {join join' : QueryJoin}
    {right : RightTable} {l : TableRow} {candidates : List TableRow} (htype : join'.type = join.type)
    (h : ∀ r ∈ candidates,
      includesRow env state join' right l r = includesRow env state join right l r) :
    matchedRows env state join' right l candidates = matchedRows env state join right l candidates := by
  induction candidates with
  | nil => rfl
  | cons r candidates ih =>
    have hvalues : combinedValues state join' right l r = combinedValues state join right l r := by
      rw [combinedValues, htype, combinedValues]
    rw [matchedRows, matchedRows, h r List.mem_cons_self,
      ih fun r' hr' => h r' (List.mem_cons_of_mem r hr'), hvalues]

/-- The rows of a join depend on the candidates and on what its condition says of them. -/
theorem joinRows_congr {env : SelectEnv} {state : JoinState} {join join' : QueryJoin}
    {right : RightTable} {rows : List TableRow} (htype : join'.type = join.type)
    (hcandidates : ∀ l ∈ rows, candidateRows env state join' right l = candidateRows env state join right l)
    (h : ∀ l ∈ rows, ∀ r ∈ candidateRows env state join right l,
      includesRow env state join' right l r = includesRow env state join right l r) :
    joinRows env state join' right rows = joinRows env state join right rows := by
  induction rows with
  | nil => rfl
  | cons l rows ih =>
    rw [joinRows, joinRows, hcandidates l List.mem_cons_self,
      matchedRows_congr htype (h l List.mem_cons_self), htype,
      ih (fun l' hl' => hcandidates l' (List.mem_cons_of_mem l hl'))
        fun l' hl' => h l' (List.mem_cons_of_mem l hl')]

theorem joinAll_append {env : SelectEnv} {state state' : JoinState} {before : List QueryJoin}
    (h : joinAll env state before = some (.ok state')) (after : List QueryJoin) :
    joinAll env state (before ++ after) = joinAll env state' after := by
  induction before generalizing state with
  | nil =>
    cases h
    rfl
  | cons join before ih =>
    rw [joinAll] at h
    rw [List.cons_append, joinAll]
    split at h
    · exact ih h
    · rename_i hother
      exact absurd h (hother _)

/-- The loop does not come to the later joins. -/
theorem joinAll_append_of_stopped {env : SelectEnv} {state : JoinState} {before : List QueryJoin}
    (h : ∀ state', joinAll env state before ≠ some (.ok state')) (after : List QueryJoin) :
    joinAll env state (before ++ after) = joinAll env state before := by
  induction before generalizing state with
  | nil => exact absurd rfl (h state)
  | cons join before ih =>
    rw [joinAll] at h
    rw [List.cons_append, joinAll, joinAll]
    cases hstep : joinStep env state join with
    | none => rfl
    | some outcome =>
      rw [hstep] at h
      cases outcome with
      | error e => rfl
      | ok next => exact ih h

/-! ## The same join -/

/-- The loop over the joins comes to this state. -/
def JoinsReach (env : SelectEnv) (tableName tableAlias : String) (joins : List QueryJoin)
    (state : JoinState) : Prop :=
  ∃ schema, env.loadSchema tableName = some schema ∧
    joinAll env (firstState env tableName tableAlias schema) joins = some (.ok state)

section Reached

variable {texts : ValueTexts} {command : String} {tables : String → Option JoinedTable}
  {tableName tableAlias : String} {before : List QueryJoin} {join : QueryJoin}
  {sources : List Source} {new : Source} {state : JoinState}

/-- The tables joined so far, and the next one. -/
theorem carried_of_reach
    (hchain : ChainOf tables tableName tableAlias (before ++ [join]) (sources ++ [new]))
    (haliases : DistinctAliases (sources ++ [new]))
    (hreach : JoinsReach (storedEnv texts command tables) tableName tableAlias before state) :
    Carried sources state ∧ JoinsSource tables join new ∧ state.Fits := by
  obtain ⟨first, more, heq, halias, htable, houter, hjoins⟩ := hchain.tables
  obtain ⟨schema, hschema, hall⟩ := hreach
  cases (@storedEnv_loadSchema texts command tables _ _ htable).symm.trans hschema
  cases sources with
  | nil =>
    rw [List.nil_append] at heq
    cases heq
    exact absurd hjoins.length_eq (by simp)
  | cons first' more' =>
    rw [List.cons_append] at heq
    obtain ⟨rfl, rfl⟩ := List.cons.inj heq
    have hlength : before.length = more'.length := by simpa using hjoins.length_eq
    have hbefore := List.forall₂_take_append _ _ _ hjoins
    have hlast := List.forall₂_drop_append _ _ _ hjoins
    rw [← hlength, List.take_left] at hbefore
    rw [← hlength, List.drop_left] at hlast
    have hearlier : DistinctAliases (first' :: more') :=
      ⟨fun s hs => haliases.names s (List.mem_append_left _ hs),
        haliases.nodup.sublist ((List.sublist_append_left _ [new]).map _)⟩
    refine ⟨?_, ?_, ?_⟩
    · exact (carried_firstState htable halias (hearlier.names first' List.mem_cons_self)).joinAll
        hbefore hearlier hall
    · cases hlast with
      | cons hsource _ => exact hsource
    · exact (fits_firstState htable).joinAll hall

end Reached

section Same

variable {texts : ValueTexts} {command : String} {tables : String → Option JoinedTable}
  {join : QueryJoin} {sources : List Source} {new : Source} {state : JoinState}
  {left right : OnOperand} {op : QueryOperator} {l r : TableRow} {added : List Column}

/-- An operand is a column of the tables joined so far, or one of the new table. -/
theorem lookup_oneSide (h : Carried sources state) (haliases : DistinctAliases (sources ++ [new]))
    {a : OnOperand} (hnames : a.Names (sources ++ [new])) :
    state.aliases.lookup (dotted a.origin.1 a.origin.2.name) = none ∨
      (buildAliasMap new.tableAlias new.table.schema).lookup (dotted a.origin.1 a.origin.2.name) =
        none := by
  by_cases hplace : a.place < (origins sources).length
  · exact .inr (lookup_joined haliases hnames hplace)
  · exact .inl (lookup_added h haliases hnames (Nat.le_of_not_lt hplace))

theorem alias_ne_empty (haliases : DistinctAliases (sources ++ [new])) {a : OnOperand}
    (hnames : a.Names (sources ++ [new])) : a.origin.1 ≠ "" := by
  obtain ⟨s, hs, halias, -⟩ := mem_origins.mp (List.mem_of_getElem? hnames)
  rw [halias]
  exact ne_empty_of_isValidName (haliases.names s hs)

theorem resolvedJoinColumn_reference {a : OnOperand} (halias : a.origin.1 ≠ "")
    (target other : Schema) (aliases : AliasMap) :
    resolvedJoinColumn a.reference target other aliases =
      aliases.lookup (dotted a.origin.1 a.origin.2.name) := by
  rw [OnOperand.reference, resolvedJoinColumn, if_pos halias]
  rfl

/-- An index is asked about the same columns. -/
theorem indexedJoinLookup_swapped (h : Carried sources state)
    (haliases : DistinctAliases (sources ++ [new])) (hleft : left.Names (sources ++ [new]))
    (hright : right.Names (sources ++ [new])) :
    indexedJoinLookup (some (.comparison right.reference (flippedOperator op) left.reference))
        state.schema new.table.schema state.aliases
        (buildAliasMap new.tableAlias new.table.schema) =
      indexedJoinLookup (some (.comparison left.reference op right.reference)) state.schema
        new.table.schema state.aliases (buildAliasMap new.tableAlias new.table.schema) := by
  cases op with
  | equal =>
    have hl := alias_ne_empty haliases hleft
    have hr := alias_ne_empty haliases hright
    simp only [flippedOperator, indexedJoinLookup, resolvedJoinColumn_reference hl,
      resolvedJoinColumn_reference hr]
    rcases lookup_oneSide h haliases hleft with hnone | hnone
    · rw [hnone]
    · rw [hnone]
      cases state.aliases.lookup (dotted left.origin.1 left.origin.2.name) <;>
        cases (buildAliasMap new.tableAlias new.table.schema).lookup
          (dotted right.origin.1 right.origin.2.name) <;>
        cases state.aliases.lookup (dotted right.origin.1 right.origin.2.name) <;> rfl
  | notEqual => rfl
  | greater => rfl
  | less => rfl
  | greaterEqual => rfl
  | lessEqual => rfl

theorem includesRow_cross {env : SelectEnv} {table : RightTable} {join : QueryJoin}
    (htype : join.type = .cross) : includesRow env state join table l r = .ok true := by
  rw [includesRow, htype]

theorem includesRow_eq {env : SelectEnv} {table : RightTable} {join : QueryJoin}
    (htype : join.type = .inner ∨ join.type = .left) {condition : QueryCondition}
    (hcondition : join.condition = some condition) :
    includesRow env state join table l r =
      (joinConditionMatches env.texts ⟨state.schema, state.aliases, l⟩
        ⟨table.schema, table.aliases, r⟩ condition).mapError fun e =>
          { e with source := env.command } := by
  unfold includesRow
  rcases htype with htype | htype
  all_goals
    rw [htype]
    dsimp only
    rw [hcondition]
    dsimp only
    cases joinConditionMatches env.texts ⟨state.schema, state.aliases, l⟩
        ⟨table.schema, table.aliases, r⟩ condition with
    | error e => rfl
    | ok matched => rfl

theorem candidateRows_congr {env : SelectEnv} {table : RightTable} {join join' : QueryJoin}
    (htype : join'.type = join.type) (hname : join'.tableName = join.tableName)
    (hlookup : indexedJoinLookup join'.condition state.schema table.schema state.aliases table.aliases =
      indexedJoinLookup join.condition state.schema table.schema state.aliases table.aliases) :
    candidateRows env state join' table l = candidateRows env state join table l := by
  unfold candidateRows
  rw [htype, hname, hlookup]

theorem includesRow_onComparison (hs : JoinsSource tables join new)
    (houtcome : onOutcome texts state new right (flippedOperator op) left l r =
      onOutcome texts state new left op right l r) :
    includesRow (storedEnv texts command tables) state
        (join.onComparison right (flippedOperator op) left)
        (rightTable (storedEnv texts command tables) join new.table.schema added) l r =
      includesRow (storedEnv texts command tables) state (join.onComparison left op right)
        (rightTable (storedEnv texts command tables) join new.table.schema added) l r := by
  rw [onOutcome, onOutcome, hs.tableAlias] at houtcome
  have hmatches : joinConditionMatches texts ⟨state.schema, state.aliases, l⟩
      ⟨new.table.schema, buildAliasMap (rightAlias join) new.table.schema, r⟩
        (.comparison right.reference (flippedOperator op) left.reference) =
      joinConditionMatches texts ⟨state.schema, state.aliases, l⟩
        ⟨new.table.schema, buildAliasMap (rightAlias join) new.table.schema, r⟩
        (.comparison left.reference op right.reference) := houtcome
  by_cases hcross : join.type = .cross
  · have hswapped : (join.onComparison right (flippedOperator op) left).type = .cross := hcross
    have hwritten : (join.onComparison left op right).type = .cross := hcross
    rw [includesRow_cross hswapped, includesRow_cross hwritten]
  · have hswapped : (join.onComparison right (flippedOperator op) left).type = .inner ∨
        (join.onComparison right (flippedOperator op) left).type = .left :=
      hs.type.resolve_left hcross
    have hwritten : (join.onComparison left op right).type = .inner ∨
        (join.onComparison left op right).type = .left := hs.type.resolve_left hcross
    rw [includesRow_eq hswapped rfl, includesRow_eq hwritten rfl]
    exact congrArg _ hmatches

/-- A turn of the loop is the same for both ways of writing its condition. -/
theorem joinStep_onComparison (h : Carried sources state)
    (haliases : DistinctAliases (sources ++ [new])) (hs : JoinsSource tables join new)
    (hleft : left.Names (sources ++ [new])) (hright : right.Names (sources ++ [new]))
    (hsame : ∀ l ∈ state.rows, ∀ r ∈ new.table.rows,
      onOutcome texts state new right (flippedOperator op) left l r =
        onOutcome texts state new left op right l r) :
    joinStep (storedEnv texts command tables) state
        (join.onComparison right (flippedOperator op) left) =
      joinStep (storedEnv texts command tables) state (join.onComparison left op right) := by
  have hschema : (storedEnv texts command tables).loadSchema join.tableName =
      some new.table.schema := storedEnv_loadSchema hs.table
  cases hadded : joinColumnsForRightSide state.schema new.table.schema join.type with
  | none =>
    have hnone : ∀ condition : Option QueryCondition,
        joinStep (storedEnv texts command tables) state { join with condition := condition } =
          none := by
      intro condition
      rw [joinStep, hschema]
      dsimp only
      rw [hadded]
    exact (hnone _).trans (hnone _).symm
  | some added =>
    have hstep : ∀ condition : Option QueryCondition,
        joinStep (storedEnv texts command tables) state { join with condition := condition } =
          joinedState state join new.table.schema added
            (joinRows (storedEnv texts command tables) state { join with condition := condition }
              (rightTable (storedEnv texts command tables) join new.table.schema added)
              state.rows) := by
      intro condition
      exact @joinStep_added (storedEnv texts command tables) { join with condition := condition }
        new.table.schema state hschema added hadded
    refine (hstep _).trans (Eq.trans ?_ (hstep _).symm)
    refine congrArg (joinedState state join new.table.schema added) ?_
    refine joinRows_congr rfl (fun l _ => ?_) fun l hl r hr => ?_
    · have hlookup := @indexedJoinLookup_swapped sources new state left right op h haliases hleft
        hright
      rw [hs.tableAlias] at hlookup
      exact candidateRows_congr rfl rfl hlookup
    · have htable : tables (join.onComparison left op right).tableName = some new.table := hs.table
      have hrows := candidateRows_mem htable hr
      exact includesRow_onComparison hs (hsame l hl r hrows)

end Same

/-! ## Where nothing goes wrong -/

/-- A column of the tables joined so far on the left and one of the new table on the right. -/
theorem foundCompareAlike_of_sides (texts : ValueTexts) {state : JoinState} {left right : OnOperand}
    (new : Source) (hleft : left.place < state.schema.columns.length)
    (hright : state.schema.columns.length ≤ right.place) (op : QueryOperator) (l r : TableRow) :
    FoundCompareAlike texts state new left op right l r := by
  have hl : leftPlace state left = some left.place := if_pos hleft
  have hr : rightPlace state new right = some right.place := if_neg (Nat.not_lt_of_le hright)
  rw [FoundCompareAlike, hl]
  exact ⟨right.place, hr, rfl⟩

theorem compareData_swap {α : Type} [DecidableEq α] [LT α] [DecidableLT α]
    [Std.Asymm (α := α) (· < ·)] [Std.Trichotomous (α := α) (· < ·)] (x y : α) :
    Value.compareData y x = (Value.compareData x y).swap := by
  rw [Value.compareData, Value.compareData]
  by_cases heq : x = y
  · rw [if_pos heq, if_pos heq.symm]
    rfl
  · rw [if_neg heq, if_neg (Ne.symm heq)]
    by_cases hlt : x < y
    · rw [if_pos hlt, if_neg (Std.Asymm.asymm x y hlt)]
      rfl
    · have hgt : y < x := by
        by_contra hge
        exact heq (Std.Trichotomous.trichotomous x y hlt hge)
      rw [if_neg hlt, if_pos hgt]
      rfl

theorem compareValues_swap {v w : Value} (h : v.type = w.type ∨ v.isNull ∨ w.isNull) :
    Value.compareValues w v = (Value.compareValues v w).swap := by
  by_cases hnull : (v.isNull || w.isNull) = true
  · have hnull' : (w.isNull || v.isNull) = true := by
      rw [Bool.or_comm]
      exact hnull
    rw [Value.compareValues, Value.compareValues, if_pos hnull, if_pos hnull']
    cases hv : v.isNull <;> cases hw : w.isNull <;> simp_all
  · have hnull' : ¬ (w.isNull || v.isNull) = true := by
      rw [Bool.or_comm]
      exact hnull
    have htype : v.type = w.type := by simp_all
    rw [Value.compareValues, Value.compareValues, if_neg hnull, if_neg hnull', htype]
    split
    · exact compareData_swap v.integerData w.integerData
    · exact compareData_swap v.numberData w.numberData
    · exact compareData_swap v.dateData w.dateData
    · exact compareData_swap v.timeData w.timeData
    · exact compareData_swap v.datetimeData w.datetimeData
    · exact compareData_swap v.stringData w.stringData

/-- Values of one type compare alike both ways. -/
theorem comparePlaces_flipped {l r : TableRow} {i j : Nat}
    (h : (pairValue l r i).type = (pairValue l r j).type ∨ (pairValue l r i).isNull ∨
      (pairValue l r j).isNull) (op : QueryOperator) :
    comparePlaces l r j (flippedOperator op) i = comparePlaces l r i op j := by
  rw [comparePlaces, comparePlaces, compareValues_swap h]
  cases Value.compareValues (pairValue l r i) (pairValue l r j) <;> cases op <;> rfl

/-! ## What the operands of a chain mean -/

/-- An `ON` comparison of two qualified columns is evaluated on those columns, whichever side they
are on, exactly if what is found in place of the operands compares alike; the join is then the same
both ways. -/
theorem onOperands_meaning (texts : ValueTexts) (command : String)
    (tables : String → Option JoinedTable) (tableName tableAlias : String)
    (before after : List QueryJoin) (join : QueryJoin) (sources : List Source) (new : Source)
    (hchain : ChainOf tables tableName tableAlias (before ++ [join]) (sources ++ [new]))
    (haliases : DistinctAliases (sources ++ [new])) (left right : OnOperand) (op : QueryOperator)
    (hleft : left.Names (sources ++ [new])) (hright : right.Names (sources ++ [new])) :
    (∀ state, JoinsReach (storedEnv texts command tables) tableName tableAlias before state →
      (MeansEitherWay texts state new left op right ↔ AlikeEitherWay texts state new left op right)) ∧
    ((∀ state, JoinsReach (storedEnv texts command tables) tableName tableAlias before state →
        MeansEitherWay texts state new left op right) →
      executeJoin (storedEnv texts command tables) tableName tableAlias
          (before ++ join.onComparison right (flippedOperator op) left :: after) =
        executeJoin (storedEnv texts command tables) tableName tableAlias
          (before ++ join.onComparison left op right :: after)) := by
  constructor
  · intro state hreach
    obtain ⟨hcarried, hs, hfits⟩ := carried_of_reach hchain haliases hreach
    have hiff : ∀ {a b : OnOperand}, a.Names (sources ++ [new]) → b.Names (sources ++ [new]) →
        ∀ op', ∀ l ∈ state.rows, ∀ r ∈ new.table.rows,
          (MeansItsColumns texts state new a op' b l r ↔
            FoundCompareAlike texts state new a op' b l r) :=
      fun ha hb _ l hl r hr => meansItsColumns_iff hcarried haliases ha hb (hfits l hl)
        (length_values hr)
    constructor
    · rintro ⟨hwritten, hswapped, hsame⟩
      refine ⟨fun l hl r hr => (hiff hleft hright op l hl r hr).mp (hwritten l hl r hr),
        fun l hl r hr => (hiff hright hleft _ l hl r hr).mp (hswapped l hl r hr),
        fun l hl r hr => ?_⟩
      have heq := hsame l hl r hr
      rw [hwritten l hl r hr, hswapped l hl r hr] at heq
      exact Except.ok.inj heq
    · rintro ⟨hwritten, hswapped, hflipped⟩
      have hmeans := fun l hl r hr => (hiff hleft hright op l hl r hr).mpr (hwritten l hl r hr)
      have hmeans' := fun l hl r hr => (hiff hright hleft _ l hl r hr).mpr (hswapped l hl r hr)
      refine ⟨hmeans, hmeans', fun l hl r hr => ?_⟩
      rw [hmeans l hl r hr, hmeans' l hl r hr, hflipped l hl r hr]
  · intro hmeans
    obtain ⟨first, more, -, -, htable, -, -⟩ := hchain.tables
    have hschema : (storedEnv texts command tables).loadSchema tableName =
        some first.table.schema := storedEnv_loadSchema htable
    rw [executeJoin_eq tableAlias hschema, executeJoin_eq tableAlias hschema]
    refine congrArg _ ?_
    by_cases hstate : ∃ state, joinAll (storedEnv texts command tables)
        (firstState (storedEnv texts command tables) tableName tableAlias first.table.schema)
          before = some (.ok state)
    · obtain ⟨state, hall⟩ := hstate
      have hreach : JoinsReach (storedEnv texts command tables) tableName tableAlias before state :=
        ⟨_, hschema, hall⟩
      obtain ⟨hcarried, hs, -⟩ := carried_of_reach hchain haliases hreach
      rw [joinAll_append hall, joinAll_append hall, joinAll, joinAll,
        joinStep_onComparison hcarried haliases hs hleft hright (hmeans state hreach).same]
    · have hstopped := fun state hall => hstate ⟨state, hall⟩
      rw [joinAll_append_of_stopped hstopped, joinAll_append_of_stopped hstopped]

/-! ## Operands on either side of `<` -/

def operandX : OnOperand := ⟨0, ("a", ⟨"x", .integer, true, 8, 0, 0⟩), "a.x", 0⟩

def operandY : OnOperand := ⟨1, ("b", ⟨"y", .integer, true, 8, 0, 0⟩), "b.y", 0⟩

def onLeft : Source := ⟨"a", leftNumbers, false⟩

def onRight : Source := ⟨"b", rightNumbers, false⟩

theorem onOperands_meaning_less :
    (∀ state, JoinsReach (storedEnv integerTexts "" numbersTables) "a" "" [] state →
      (MeansEitherWay integerTexts state onRight operandX .less operandY ↔
        AlikeEitherWay integerTexts state onRight operandX .less operandY)) ∧
    ((∀ state, JoinsReach (storedEnv integerTexts "" numbersTables) "a" "" [] state →
        MeansEitherWay integerTexts state onRight operandX .less operandY) →
      executeJoin (storedEnv integerTexts "" numbersTables) "a" ""
          [(joinOn columnX columnY).onComparison operandY .greater operandX] =
        executeJoin (storedEnv integerTexts "" numbersTables) "a" ""
          [(joinOn columnX columnY).onComparison operandX .less operandY]) :=
  onOperands_meaning integerTexts "" numbersTables "a" "" [] [] (joinOn columnX columnY) [onLeft]
    onRight ⟨_, _, rfl, rfl, rfl, rfl, .cons ⟨rfl, rfl, .inr (.inl rfl), rfl⟩ .nil⟩
    ⟨by decide, by decide⟩ operandX operandY .less rfl rfl

/-- `ON a.x < b.y` has a row; `ON b.y > a.x` takes the text `a.x` for a number. -/
theorem right_operand_first_fails :
    (executeJoin (storedEnv integerTexts "" numbersTables) "a" ""
        [(joinOn columnX columnY).onComparison operandX .less operandY]).map
          (fun r => (r.isOk, r.rows)) = some (true, [["1", "2"]]) ∧
      (executeJoin (storedEnv integerTexts "" numbersTables) "a" ""
        [(joinOn columnX columnY).onComparison operandY (flippedOperator .less) operandX]).map
          (fun r => (r.isOk, r.rows)) = some (false, []) := by
  constructor
  · decide +kernel
  · decide +kernel

end ScratchDb.Select
