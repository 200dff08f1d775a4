import ScratchDb.Select.Calls

/-!
# References to an outer row

Before a subquery is executed, every column reference that the outer result knows
is replaced by the value of the outer row, whether or not the subquery's own
tables have a column of that name. The subquery that is executed does not depend
on the outer row exactly if the outer result knows none of its references.
-/

namespace ScratchDb.Select

open OpenRecursion

/-! ## The references that are looked up -/

/-- The qualifier and the name of a column reference. -/
def QueryExpression.references : QueryExpression → List (String × String)
  | .columnReference tableAlias name _ _ => [(tableAlias, name)]
  | _ => []

/-- The references of a condition outside its subqueries. -/
def QueryCondition.references : QueryCondition → List (String × String)
  | .comparison left _ right => left.references ++ right.references
  | .subquery left _ _ => left.references
  | .rightValues left _ _ => left.references
  | .existsSubquery _ => []
  | .existsResult _ => []
  | .not c => c.references
  | .and left right => left.references ++ right.references
  | .or left right => left.references ++ right.references

def QueryJoin.references (j : QueryJoin) : List (String × String) :=
  match j.condition with
  | none => []
  | some condition => condition.references

/-- The references of the conditions of a query, of its derived table and its compound parts. -/
def ParsedQuery.references : ParsedQuery → List (String × String)
  | ⟨_, _, derived, _, _, _, _, condition, _, joins, _, compound, _⟩ =>
    (match condition with
      | none => []
      | some condition => condition.references) ++
    joins.flatMap QueryJoin.references ++
    (match derived with
      | none => []
      | some q => q.references) ++
    (match compound with
      | none => []
      | some ⟨_, _, q⟩ => q.references)

/-- The outer result knows none of the references. -/
def NoneCaptured (result : QueryResult) (references : List (String × String)) : Prop :=
  ∀ ref ∈ references, ∀ i, lookupColumn result ref.1 ref.2 ≠ .found i

section Captured

variable {result : QueryResult} {refs refs' : List (String × String)}

theorem noneCaptured_nil : NoneCaptured result [] := by
  intro ref hmem
  cases hmem

theorem noneCaptured_append :
    NoneCaptured result (refs ++ refs') ↔ NoneCaptured result refs ∧ NoneCaptured result refs' :=
  List.forall_mem_append

end Captured

/-! ## What depends on the outer row -/

/-- The same for every row of the outer result. -/
def RowFree {α : Type} (result : QueryResult) (f : Outer → α) : Prop :=
  ∀ row row', f ⟨result, row⟩ = f ⟨result, row'⟩

section RowFree

variable {α β γ : Type} {result : QueryResult}

theorem rowFree_const (a : α) : RowFree result fun _ => a := fun _ _ => rfl

/-- Injective combinations are free of the row where both of their parts are. -/
theorem rowFree_pair (combine : α → β → γ) (f : Outer → α) (g : Outer → β)
    (hinj : ∀ row row', combine (f ⟨result, row⟩) (g ⟨result, row⟩) =
      combine (f ⟨result, row'⟩) (g ⟨result, row'⟩) →
      f ⟨result, row⟩ = f ⟨result, row'⟩ ∧ g ⟨result, row⟩ = g ⟨result, row'⟩) :
    RowFree result (fun outer => combine (f outer) (g outer)) ↔
      RowFree result f ∧ RowFree result g := by
  constructor
  · intro h
    exact ⟨fun row row' => (hinj row row' (h row row')).1,
      fun row row' => (hinj row row' (h row row')).2⟩
  · rintro ⟨hf, hg⟩ row row'
    show combine _ _ = combine _ _
    rw [hf row row', hg row row']

theorem rowFree_map {wrap : α → β} (hinj : Function.Injective wrap) (f : Outer → α) :
    RowFree result (fun outer => wrap (f outer)) ↔ RowFree result f := by
  constructor
  · intro h row row'
    exact hinj (h row row')
  · intro h row row'
    exact congrArg wrap (h row row')

end RowFree

variable (result : QueryResult)

theorem quoteScalarIfNeeded_inj (c : QueryResultColumn) :
    quoteScalarIfNeeded c "0" ≠ quoteScalarIfNeeded c "" := by
  unfold quoteScalarIfNeeded
  split
  · decide
  · simp

theorem rowFree_replaceExpression (e : QueryExpression) :
    RowFree result (fun outer => replaceExpression outer e) ↔ NoneCaptured result e.references := by
  cases e with
  | columnReference tableAlias name text position =>
    constructor
    · -- Two rows that differ in the cell the reference takes.
      intro h ref hmem i hi
      rw [List.mem_singleton.mp hmem] at hi
      have hrow := h (List.replicate (i + 1) "0") []
      simp only [replaceExpression, hi, QueryExpression.literal.injEq] at hrow
      have hcells : cell (List.replicate (i + 1) "0") i = "0" ∧ cell [] i = "" := by simp [cell]
      rw [hcells.1, hcells.2] at hrow
      exact quoteScalarIfNeeded_inj (columnOf result i) hrow.1
    · intro h row row'
      have hnone := h (tableAlias, name) List.mem_cons_self
      show replaceExpression _ _ = replaceExpression _ _
      rw [replaceExpression, replaceExpression]
      cases hi : lookupColumn result tableAlias name with
      | found i => exact absurd hi (hnone i)
      | ambiguous => rfl
      | unknown => rfl
  | aggregate function tableAlias name position =>
    exact ⟨fun _ => noneCaptured_nil, fun _ => rowFree_const _⟩
  | literal text position => exact ⟨fun _ => noneCaptured_nil, fun _ => rowFree_const _⟩
  | scalarSubquery text query position =>
    exact ⟨fun _ => noneCaptured_nil, fun _ => rowFree_const _⟩

/-! ## Operands that have been turned around -/

def QueryExpression.isLiteral : QueryExpression → Bool
  | .literal _ _ => true
  | _ => false

/-- Whether an operand is replaced does not depend on the row. -/
theorem isLiteral_replaceExpression (row row' : List String) (e : QueryExpression) :
    (replaceExpression ⟨result, row⟩ e).isLiteral =
      (replaceExpression ⟨result, row'⟩ e).isLiteral := by
  cases e with
  | columnReference tableAlias name text position =>
    simp only [replaceExpression]
    split
    · rfl
    · rfl
  | aggregate function tableAlias name position => rfl
  | literal text position => rfl
  | scalarSubquery text query position => rfl

theorem normalizeColumnLeft_inj {left left' right right' : QueryExpression} {op : QueryOperator}
    (hleft : left.isLiteral = left'.isLiteral) (hright : right.isLiteral = right'.isLiteral)
    (h : normalizeColumnLeft left op right = normalizeColumnLeft left' op right') :
    left = left' ∧ right = right' := by
  unfold normalizeColumnLeft at h
  split at h
  · split at h
    · cases h
      exact ⟨rfl, rfl⟩
    · rw [QueryCondition.comparison.injEq] at h
      rw [← h.1] at hleft
      cases hleft
  · split at h
    · rw [QueryCondition.comparison.injEq] at h
      rw [h.1] at hleft
      cases hleft
    · cases h
      exact ⟨rfl, rfl⟩

/-! ## Conditions, joins and queries -/

theorem rowFree_replaceCondition (c : QueryCondition) :
    RowFree result (fun outer => replaceCondition outer c) ↔ NoneCaptured result c.references := by
  induction c using replaceCondition.induct with
  | case1 left op right =>
    simp only [replaceCondition, QueryCondition.references]
    rw [noneCaptured_append, ← rowFree_replaceExpression, ← rowFree_replaceExpression]
    exact rowFree_pair (fun l r => normalizeColumnLeft l op r) _ _ fun row row' =>
      normalizeColumnLeft_inj (isLiteral_replaceExpression result row row' left)
      (isLiteral_replaceExpression result row row' right)
  | case2 left test query =>
    rw [QueryCondition.references, ← rowFree_replaceExpression]
    exact @rowFree_map _ _ _ (fun e => QueryCondition.subquery e test query)
      (fun e e' h => (QueryCondition.subquery.inj h).1) _
  | case3 left test values =>
    rw [QueryCondition.references, ← rowFree_replaceExpression]
    exact @rowFree_map _ _ _ (fun e => QueryCondition.rightValues e test values)
      (fun e e' h => (QueryCondition.rightValues.inj h).1) _
  | case4 query => exact ⟨fun _ => noneCaptured_nil, fun _ => rowFree_const _⟩
  | case5 value => exact ⟨fun _ => noneCaptured_nil, fun _ => rowFree_const _⟩
  | case6 c ih =>
    rw [QueryCondition.references, ← ih]
    exact rowFree_map (fun c c' h => QueryCondition.not.inj h) _
  | case7 left right ihl ihr =>
    simp only [replaceCondition, QueryCondition.references]
    rw [noneCaptured_append, ← ihl, ← ihr]
    exact rowFree_pair QueryCondition.and _ _ fun row row' h => QueryCondition.and.inj h
  | case8 left right ihl ihr =>
    simp only [replaceCondition, QueryCondition.references]
    rw [noneCaptured_append, ← ihl, ← ihr]
    exact rowFree_pair QueryCondition.or _ _ fun row row' h => QueryCondition.or.inj h

section Parts

variable (outer : Outer) (q : ParsedQuery)

theorem condition_replace :
    (replaceOuterReferences outer q).condition = q.condition.map (replaceCondition outer) := by
  rw [replaceOuterReferences_eq]

theorem joins_replace :
    (replaceOuterReferences outer q).joins = q.joins.map (replaceJoin outer) := by
  rw [replaceOuterReferences_eq]

theorem derivedTable_replace :
    (replaceOuterReferences outer q).derivedTable =
      q.derivedTable.map (replaceOuterReferences outer) := by
  rw [replaceOuterReferences_eq]

end Parts

/-- An optional part of a query. -/
theorem rowFree_option {α : Type} {replace : Outer → α → α} {references : α → List (String × String)}
    (h : ∀ a, RowFree result (fun outer => replace outer a) ↔ NoneCaptured result (references a))
    (part : Option α) :
    RowFree result (fun outer => part.map (replace outer)) ↔
      NoneCaptured result (part.elim [] references) := by
  cases part with
  | none => exact ⟨fun _ => noneCaptured_nil, fun _ => rowFree_const _⟩
  | some a =>
    rw [Option.elim_some, ← h]
    exact rowFree_map (Option.some_injective α) _

theorem QueryJoin.references_eq (j : QueryJoin) :
    j.references = j.condition.elim [] QueryCondition.references := by
  unfold QueryJoin.references
  cases j.condition with
  | none => rfl
  | some c => rfl

theorem rowFree_replaceJoin (j : QueryJoin) :
    RowFree result (fun outer => replaceJoin outer j) ↔ NoneCaptured result j.references := by
  rw [QueryJoin.references_eq, ← rowFree_option result (rowFree_replaceCondition result)]
  constructor
  · intro h row row'
    exact congrArg QueryJoin.condition (h row row')
  · intro h row row'
    exact congrArg (fun condition => { j with condition }) (h row row')

theorem rowFree_replaceJoins (joins : List QueryJoin) :
    RowFree result (fun outer => joins.map (replaceJoin outer)) ↔
      NoneCaptured result (joins.flatMap QueryJoin.references) := by
  induction joins with
  | nil => exact ⟨fun _ => noneCaptured_nil, fun _ => rowFree_const _⟩
  | cons j joins ih =>
    simp only [List.map_cons, List.flatMap_cons]
    rw [noneCaptured_append, ← ih, ← rowFree_replaceJoin]
    exact rowFree_pair List.cons _ _ fun row row' h => List.cons.inj h

theorem ParsedQuery.references_eq (q : ParsedQuery) :
    q.references = q.condition.elim [] QueryCondition.references ++
      q.joins.flatMap QueryJoin.references ++ q.derivedTable.elim [] ParsedQuery.references ++
      q.compound.elim [] fun c => c.query.references := by
  cases q with
  | mk tableName tableAlias derived all selected groups orders condition having joins ctes compound limit =>
    cases compound with
    | none => cases condition <;> cases derived <;> rw [ParsedQuery.references] <;> rfl
    | some c =>
      cases c
      cases condition <;> cases derived <;> rw [ParsedQuery.references] <;> rfl

/-- The query that is executed does not depend on the outer row exactly if the outer result knows
none of its references. -/
theorem rowFree_replaceOuterReferences (q : ParsedQuery) :
    RowFree result (fun outer => replaceOuterReferences outer q) ↔
      NoneCaptured result q.references := by
  induction q using replaceOuterReferences.induct with
  | case1 tableName tableAlias derived all selected groups orders condition having joins ctes compound
      limit ihDerived ihCompound =>
    have hcondition := rowFree_option result (rowFree_replaceCondition result) condition
    have hjoins := rowFree_replaceJoins result joins
    have hderived : RowFree result (fun outer => derived.map (replaceOuterReferences outer)) ↔
        NoneCaptured result (derived.elim [] ParsedQuery.references) := by
      cases derived with
      | none => exact ⟨fun _ => noneCaptured_nil, fun _ => rowFree_const _⟩
      | some d =>
        rw [Option.elim_some, ← show _ ↔ _ from ihDerived]
        exact rowFree_map (Option.some_injective _) _
    have hcompound : RowFree result (fun outer => compound.map fun c =>
          { c with query := replaceOuterReferences outer c.query }) ↔
        NoneCaptured result (compound.elim [] fun c => c.query.references) := by
      cases compound with
      | none => exact ⟨fun _ => noneCaptured_nil, fun _ => rowFree_const _⟩
      | some c =>
        cases c with
        | mk operator quantifier query =>
          rw [Option.elim_some, ← show _ ↔ _ from ihCompound]
          exact rowFree_map (fun q q' h => (QueryCompound.mk.inj (Option.some.inj h)).2.2) _
    rw [ParsedQuery.references_eq, noneCaptured_append, noneCaptured_append, noneCaptured_append,
      ← hcondition, ← hjoins, ← hderived, ← hcompound]
    constructor
    · intro h
      refine ⟨⟨⟨fun row row' => ?_, fun row row' => ?_⟩, fun row row' => ?_⟩, fun row row' => ?_⟩
      · have heq := congrArg ParsedQuery.condition (h row row')
        simpa only [condition_replace] using heq
      · have heq := congrArg ParsedQuery.joins (h row row')
        simpa only [joins_replace] using heq
      · have heq := congrArg ParsedQuery.derivedTable (h row row')
        simpa only [derivedTable_replace] using heq
      · have heq := congrArg ParsedQuery.compound (h row row')
        simpa only [compound_replace] using heq
    · rintro ⟨⟨⟨hc, hj⟩, hd⟩, hk⟩ row row'
      show replaceOuterReferences _ _ = replaceOuterReferences _ _
      have hcondition := hc row row'
      have hjoins := hj row row'
      have hderived := hd row row'
      have hcompound := hk row row'
      dsimp only at hcondition hjoins hderived hcompound
      rw [replaceOuterReferences_eq, replaceOuterReferences_eq ⟨result, row'⟩]
      dsimp only
      rw [hcondition, hjoins, hderived, hcompound]

/-! ## Subqueries -/

/-- A subquery has one result for all rows of the outer result where the outer result knows none of
its references, whatever its own tables are; where it knows one, the query that is executed is not
the same for all rows. -/
theorem executeSelectChain_rowFree (query : ParsedQuery) :
    (NoneCaptured result query.references → ∀ env fuel row row',
      executeSelectChain env fuel query (some ⟨result, row⟩) =
        executeSelectChain env fuel query (some ⟨result, row'⟩)) ∧
      ((∀ row row', preparedQuery query (some ⟨result, row⟩) =
        preparedQuery query (some ⟨result, row'⟩)) ↔ NoneCaptured result query.references) := by
  have hprepared := rowFree_replaceOuterReferences result query
  refine ⟨fun hnone env fuel row row' => ?_, hprepared⟩
  have heq : preparedQuery query (some ⟨result, row⟩) = preparedQuery query (some ⟨result, row'⟩) :=
    hprepared.mpr hnone row row'
  cases fuel with
  | zero => rfl
  | succ n =>
    show chainStep env _ (query, _) = chainStep env _ (query, _)
    rw [chainStep_prepared, heq, ← chainStep_prepared]

/-- The tables `a (x)` and `b (x, y)`. -/
def overlappingTables : SelectEnv :=
  integerTables [⟨"a", ["x"], [[1], [2]]⟩, ⟨"b", ["x", "y"], [[5, 1], [6, 2]]⟩]
    "SELECT * FROM a WHERE EXISTS (SELECT * FROM b WHERE x = y)"

/-- `SELECT * FROM b WHERE x = y`. -/
def equalColumns : ParsedQuery :=
  { ParsedQuery.allOf "b" with
    condition := some
      (.comparison (.columnReference "" "x" "x" 0) .equal (.columnReference "" "y" "y" 0)) }

/-- The rows of `b` that the subquery returns are chosen by the rows of `a`. -/
theorem own_name_captured :
    ¬ ∀ (env : SelectEnv) (fuel : Nat) (query : ParsedQuery) (result source : QueryResult)
        (row row' : List String),
        row ∈ result.rows → row' ∈ result.rows →
        executeRowSource env (fun i => executeSelectChain env fuel i.1 i.2) query = .ok source →
        (∀ ref ∈ query.references, ∃ i, lookupColumn source ref.1 ref.2 = .found i) →
        executeSelectChain env (fuel + 1) query (some ⟨result, row⟩) =
          executeSelectChain env (fuel + 1) query (some ⟨result, row'⟩) := by
  intro h
  have hown : ∀ ref ∈ equalColumns.references,
      ∃ i, lookupColumn (selectAll overlappingTables "b" "") ref.1 ref.2 = .found i :=
    List.forall_mem_cons.mpr ⟨⟨0, by decide⟩, List.forall_mem_singleton.mpr ⟨1, by decide⟩⟩
  have hsame := h overlappingTables 0 equalColumns (selectAll overlappingTables "a" "")
    (selectAll overlappingTables "b" "") ["1"] ["2"] (by decide) (by decide) rfl hown
  have hrows := congrArg (fun run => run.toOption.map QueryResult.rows) hsame
  exact absurd hrows (by decide)

end ScratchDb.Select
