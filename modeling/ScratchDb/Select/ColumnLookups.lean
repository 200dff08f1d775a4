import ScratchDb.Select.Joins

/-!
# Looking up columns

`add_column_lookup` of `src/query/query_executor.cpp` keeps the first index of a
name, and marks the name as ambiguous when it comes with another one. What
`result_column_index` then finds is said by the entries that have been added.
-/

namespace ScratchDb.Select

/-! ## What lookups leave as it is -/

/-- Two results that differ in their lookups only. -/
structure SameData (r r' : QueryResult) : Prop where
  columns : r'.columns = r.columns
  rows : r'.rows = r.rows
  rowCount : r'.rowCount = r.rowCount
  error : r'.error = r.error

section SameData

variable {r r' r'' : QueryResult}

theorem SameData.refl (r : QueryResult) : SameData r r := ⟨rfl, rfl, rfl, rfl⟩

theorem SameData.trans (h : SameData r r') (h' : SameData r' r'') : SameData r r'' :=
  ⟨h'.columns.trans h.columns, h'.rows.trans h.rows, h'.rowCount.trans h.rowCount,
    h'.error.trans h.error⟩

theorem SameData.isOk (h : SameData r r') : r'.isOk = r.isOk := by
  rw [QueryResult.isOk, h.error, QueryResult.isOk]

theorem sameData_addColumnLookup (r : QueryResult) (key : String) (index : Nat) :
    SameData r (r.addColumnLookup key index) := by
  unfold QueryResult.addColumnLookup
  split
  · split
    · exact .refl r
    · exact ⟨rfl, rfl, rfl, rfl⟩
  · exact ⟨rfl, rfl, rfl, rfl⟩

theorem sameData_foldl {α : Type} {step : QueryResult → α → QueryResult}
    (hstep : ∀ r a, SameData r (step r a)) (as : List α) (r : QueryResult) :
    SameData r (as.foldl step r) := by
  induction as generalizing r with
  | nil => exact .refl r
  | cons a as ih => exact (hstep r a).trans (ih (step r a))

theorem sameData_setBasicColumnLookup (r : QueryResult) : SameData r r.setBasicColumnLookup :=
  sameData_foldl (fun _ _ => sameData_addColumnLookup _ _ _) _ r

theorem sameData_setTableColumnLookup (r : QueryResult) (tableName tableAlias : String) :
    SameData r (r.setTableColumnLookup tableName tableAlias) :=
  (sameData_setBasicColumnLookup r).trans
    (sameData_foldl (fun _ _ => sameData_addColumnLookup _ _ _) _ _)

theorem sameData_setUnqualified (sources : List (String × String × Nat)) (r : QueryResult)
    (name : String) : SameData r (setUnqualified sources r name) := by
  unfold setUnqualified
  split
  · exact .refl r
  · split
    · exact sameData_addColumnLookup _ _ _
    · exact ⟨rfl, rfl, rfl, rfl⟩

theorem sameData_setJoinColumnLookup (r : QueryResult) (aliases : AliasMap) :
    SameData r (setJoinColumnLookup r aliases) :=
  ((sameData_setBasicColumnLookup r).trans
    (sameData_foldl (fun _ _ => sameData_addColumnLookup _ _ _) _ _)).trans
    (sameData_foldl (sameData_setUnqualified _) _ _)

end SameData

/-! ## What is found -/

/-- The name that `result_column_index` looks for. -/
def qualifiedName (tableAlias columnName : String) : String :=
  if tableAlias = "" then columnName else tableAlias ++ "." ++ columnName

theorem lookupColumn_eq (r : QueryResult) (tableAlias columnName : String) :
    lookupColumn r tableAlias columnName =
      if qualifiedName tableAlias columnName ∈ r.ambiguousColumns then .ambiguous
      else
        match r.columnPositions.lookup (qualifiedName tableAlias columnName) with
        | some i => .found i
        | none => .unknown := rfl

/-- The lookups of a result, by the entries that have been added. -/
structure Registered (r : QueryResult) (entries : List (String × Nat)) : Prop where
  position : ∀ name i, r.columnPositions.lookup name = some i → (name, i) ∈ entries
  entry : ∀ name i, (name, i) ∈ entries →
    ∃ j, r.columnPositions.lookup name = some j ∧ (j = i ∨ name ∈ r.ambiguousColumns)
  ambiguous : ∀ name ∈ r.ambiguousColumns, ∃ i j, (name, i) ∈ entries ∧ (name, j) ∈ entries ∧ i ≠ j

section Entries

variable {r : QueryResult} {entries : List (String × Nat)}

theorem registered_empty (hpositions : r.columnPositions = []) (hambiguous : r.ambiguousColumns = []) :
    Registered r [] where
  position name i h := by
    rw [hpositions] at h
    cases h
  entry name i h := by cases h
  ambiguous name h := by
    rw [hambiguous] at h
    cases h

theorem Registered.add (h : Registered r entries) (name : String) (i : Nat) :
    Registered (r.addColumnLookup name i) (entries ++ [(name, i)]) := by
  have hold : ∀ {e : String × Nat}, e ∈ entries → e ∈ entries ++ [(name, i)] :=
    fun he => List.mem_append_left _ he
  have hnew : (name, i) ∈ entries ++ [(name, i)] := List.mem_append_right _ List.mem_cons_self
  have hcases : ∀ {e : String × Nat}, e ∈ entries ++ [(name, i)] → e ∈ entries ∨ e = (name, i) :=
    fun he => (List.mem_append.mp he).imp_right List.mem_singleton.mp
  unfold QueryResult.addColumnLookup
  split
  · rename_i existing hexisting
    split
    · -- the same index again
      rename_i hsame
      subst hsame
      refine ⟨fun n j hj => hold (h.position n j hj), fun n j hj => ?_, fun n hn => ?_⟩
      · rcases hcases hj with hj | hj
        · exact h.entry n j hj
        · cases hj
          exact ⟨existing, hexisting, .inl rfl⟩
      · obtain ⟨j, k, hj, hk, hne⟩ := h.ambiguous n hn
        exact ⟨j, k, hold hj, hold hk, hne⟩
    · -- another index
      rename_i hother
      refine ⟨fun n j hj => hold (h.position n j hj), fun n j hj => ?_, fun n hn => ?_⟩
      · rcases hcases hj with hj | hj
        · obtain ⟨k, hk, hsame⟩ := h.entry n j hj
          exact ⟨k, hk, hsame.imp_right (List.mem_cons_of_mem name)⟩
        · cases hj
          exact ⟨existing, hexisting, .inr List.mem_cons_self⟩
      · rcases List.mem_cons.mp hn with rfl | hn
        · exact ⟨existing, i, hold (h.position n existing hexisting), hnew, hother⟩
        · obtain ⟨j, k, hj, hk, hne⟩ := h.ambiguous n hn
          exact ⟨j, k, hold hj, hold hk, hne⟩
  · rename_i hnone
    have hlookup : ∀ n, (r.columnPositions ++ [(name, i)]).lookup n =
        (r.columnPositions.lookup n).or (if n = name then some i else none) := by
      intro n
      rw [List.lookup_append, List.lookup_cons, List.lookup_nil]
      by_cases hn : n = name
      · rw [if_pos hn, hn]
        simp
      · rw [if_neg hn, beq_eq_false_iff_ne.mpr hn]
    refine ⟨fun n j hj => ?_, fun n j hj => ?_, fun n hn => ?_⟩
    · dsimp only at hj
      rw [hlookup] at hj
      cases hn : r.columnPositions.lookup n with
      | some k =>
        rw [hn] at hj
        cases hj
        exact hold (h.position n j hn)
      | none =>
        rw [hn, Option.none_or] at hj
        split at hj
        · rename_i hname
          cases hj
          rw [hname]
          exact hnew
        · cases hj
    · dsimp only
      rcases hcases hj with hj | hj
      · obtain ⟨k, hk, hsame⟩ := h.entry n j hj
        refine ⟨k, ?_, hsame⟩
        rw [hlookup, hk]
        rfl
      · cases hj
        refine ⟨i, ?_, .inl rfl⟩
        rw [hlookup, hnone, if_pos rfl]
        rfl
    · obtain ⟨j, k, hj, hk, hne⟩ := h.ambiguous n hn
      exact ⟨j, k, hold hj, hold hk, hne⟩

theorem Registered.addAll (h : Registered r entries) (more : List (String × Nat)) :
    Registered (more.foldl (fun r e => r.addColumnLookup e.1 e.2) r) (entries ++ more) := by
  induction more generalizing r entries with
  | nil =>
    rw [List.append_nil]
    exact h
  | cons e more ih =>
    have hnext := ih (h.add e.1 e.2)
    rw [List.append_assoc] at hnext
    exact hnext

variable (h : Registered r entries) {tableAlias columnName : String} {i : Nat}

include h

/-- A column is found where its name has one index. -/
theorem Registered.lookup_found :
    lookupColumn r tableAlias columnName = .found i ↔
      (qualifiedName tableAlias columnName, i) ∈ entries ∧
        ∀ j, (qualifiedName tableAlias columnName, j) ∈ entries → j = i := by
  rw [lookupColumn_eq]
  by_cases hambiguous : qualifiedName tableAlias columnName ∈ r.ambiguousColumns
  · rw [if_pos hambiguous]
    refine ⟨fun hfound => (by cases hfound), ?_⟩
    rintro ⟨-, hunique⟩
    obtain ⟨j, k, hj, hk, hne⟩ := h.ambiguous _ hambiguous
    exact absurd ((hunique j hj).trans (hunique k hk).symm) hne
  · rw [if_neg hambiguous]
    have honly : ∀ {k j}, r.columnPositions.lookup (qualifiedName tableAlias columnName) = some k →
        (qualifiedName tableAlias columnName, j) ∈ entries → k = j := by
      intro k j hk hj
      obtain ⟨k', hk', hsame⟩ := h.entry _ j hj
      rw [hk] at hk'
      cases hk'
      exact hsame.resolve_right hambiguous
    cases hlookup : r.columnPositions.lookup (qualifiedName tableAlias columnName) with
    | none =>
      refine ⟨fun hfound => (by cases hfound), ?_⟩
      rintro ⟨hmem, -⟩
      obtain ⟨k, hk, -⟩ := h.entry _ i hmem
      rw [hlookup] at hk
      cases hk
    | some k =>
      refine ⟨fun hfound => ?_, ?_⟩
      · cases hfound
        exact ⟨h.position _ _ hlookup, fun j hj => (honly hlookup hj).symm⟩
      · rintro ⟨hmem, -⟩
        rw [honly hlookup hmem]

/-- A column is unknown where nothing has its name. -/
theorem Registered.lookup_unknown :
    lookupColumn r tableAlias columnName = .unknown ↔
      ∀ j, (qualifiedName tableAlias columnName, j) ∉ entries := by
  rw [lookupColumn_eq]
  by_cases hambiguous : qualifiedName tableAlias columnName ∈ r.ambiguousColumns
  · rw [if_pos hambiguous]
    refine ⟨fun hunknown => (by cases hunknown), fun hnone => ?_⟩
    obtain ⟨j, -, hj, -⟩ := h.ambiguous _ hambiguous
    exact absurd hj (hnone j)
  · rw [if_neg hambiguous]
    cases hlookup : r.columnPositions.lookup (qualifiedName tableAlias columnName) with
    | some k =>
      exact ⟨fun hunknown => (by cases hunknown), fun hnone => absurd (h.position _ _ hlookup) (hnone k)⟩
    | none =>
      refine ⟨fun _ j hj => ?_, fun _ => rfl⟩
      obtain ⟨k, hk, -⟩ := h.entry _ j hj
      rw [hlookup] at hk
      cases hk

end Entries

/-! ## The lookups of a result by its own columns -/

/-- The names of the columns with their places. -/
def basicEntries (columns : List QueryResultColumn) : List (String × Nat) :=
  columns.zipIdx.map fun c => (c.1.name, c.2)

theorem mem_basicEntries {columns : List QueryResultColumn} {name : String} {i : Nat} :
    (name, i) ∈ basicEntries columns ↔ ∃ c, columns[i]? = some c ∧ c.name = name := by
  rw [basicEntries, List.mem_map]
  constructor
  · rintro ⟨c, hc, heq⟩
    cases heq
    exact ⟨c.1, List.mem_zipIdx_iff_getElem?.mp hc, rfl⟩
  · rintro ⟨c, hc, rfl⟩
    exact ⟨(c, i), List.mem_zipIdx_iff_getElem?.mpr hc, rfl⟩

theorem registered_setBasicColumnLookup {r : QueryResult} (hpositions : r.columnPositions = [])
    (hambiguous : r.ambiguousColumns = []) :
    Registered r.setBasicColumnLookup (basicEntries r.columns) := by
  have h := (registered_empty hpositions hambiguous).addAll (basicEntries r.columns)
  rw [basicEntries, List.foldl_map] at h
  exact h

end ScratchDb.Select
