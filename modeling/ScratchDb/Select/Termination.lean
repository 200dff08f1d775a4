import ScratchDb.Select.Calls

/-!
# Which queries end

`FROM` follows names through the `WITH` list, which every expression of the list
is given again, itself included. A query whose own `FROM` names lead back to a
name they have passed never ends, whatever the tables hold. Where the `FROM`
names of every query that can be reached lead to a table, the calls nest to a
depth that only depends on the text of the query.
-/

namespace ScratchDb.Select

open OpenRecursion

/-! ## Chains of names -/

namespace ParsedQuery

/-- Following `FROM` leads to a table. -/
inductive SourceEnds : ParsedQuery → Prop
  | table {q : ParsedQuery} (h : q.sourceQuery = none) : SourceEnds q
  | step {q s : ParsedQuery} (h : q.sourceQuery = some s) (ends : SourceEnds s) : SourceEnds q

/-- The queries that the execution of a query may come to. -/
inductive Reaches (q : ParsedQuery) : ParsedQuery → Prop
  | refl : Reaches q q
  | call {p s : ParsedQuery} (h : Reaches q p) (hs : p.Calls s) : Reaches q s
  | part {p : ParsedQuery} {c : QueryCompound} (h : Reaches q p) (hc : p.compound = some c) :
      Reaches q c.query

/-- `FROM` leads to a table in every query that may be reached. -/
def SourcesEnd (q : ParsedQuery) : Prop := ∀ p, q.Reaches p → p.SourceEnds

/-- The calls of a query nest less than `n` deep. -/
def NestsWithin : Nat → ParsedQuery → Prop
  | 0, _ => False
  | n + 1, q => ∀ p ∈ q.parts, ∀ s, p.Calls s → NestsWithin n s

theorem Reaches.trans {q p s : ParsedQuery} (h : q.Reaches p) (h' : p.Reaches s) : q.Reaches s := by
  induction h' with
  | refl => exact h
  | call _ hs ih => exact .call ih hs
  | part _ hc ih => exact .part ih hc

theorem SourcesEnd.of_reaches {q p : ParsedQuery} (h : q.SourcesEnd) (hp : q.Reaches p) :
    p.SourcesEnd := fun s hs => h s (hp.trans hs)

theorem NestsWithin.succ {n : Nat} {q : ParsedQuery} (h : q.NestsWithin n) :
    q.NestsWithin (n + 1) := by
  induction n generalizing q with
  | zero => exact h.elim
  | succ n ih => exact fun p hp s hs => ih (h p hp s hs)

theorem NestsWithin.mono {n m : Nat} {q : ParsedQuery} (h : q.NestsWithin n) (hnm : n ≤ m) :
    q.NestsWithin m := by
  induction hnm with
  | refl => exact h
  | step _ ih => exact ih.succ

end ParsedQuery

/-! ## Bounded nesting -/

/-- References to an outer row do not change the nesting. -/
theorem nestsWithin_replace (outer : Outer) {n : Nat} {q : ParsedQuery} (h : q.NestsWithin n) :
    (replaceOuterReferences outer q).NestsWithin n := by
  induction n generalizing q with
  | zero => exact h
  | succ n ih =>
    intro p hp s hs
    rw [parts_replace, List.mem_map] at hp
    obtain ⟨p', hp', rfl⟩ := hp
    obtain ⟨s', hs', rfl | rfl⟩ := calls_replace outer p' hs
    · exact h p' hp' s hs'
    · exact ih (h p' hp' s' hs')

theorem nestsWithin_prepared {n : Nat} {q : ParsedQuery} (h : q.NestsWithin n)
    (outer : Option Outer) : (preparedQuery q outer).NestsWithin n := by
  cases outer with
  | none => exact h
  | some outer => exact nestsWithin_replace outer h

theorem ends_of_nestsWithin {n : Nat} {q : ParsedQuery} (h : q.NestsWithin n) (env : SelectEnv)
    (outer : Option Outer) : (executeSelectChain env n q outer).Ends := by
  refine ends_of_nesting (fun n i => i.1.NestsWithin n) (fun _ h => h) ?_ n h
  intro n f i hi hcalls
  obtain ⟨q, outer⟩ := i
  exact chainStep_rel (g := f) congruence_ends fun p hp s hs outer' =>
    hcalls (s, outer') (nestsWithin_prepared hi outer p hp s hs)

/-! ## Sizes -/

theorem sizeOf_subqueries {c : QueryCondition} {s : ParsedQuery} (h : s ∈ c.subqueries) :
    sizeOf s < sizeOf c := by
  induction c using QueryCondition.subqueries.induct with
  | case1 left op right =>
    cases right with
    | scalarSubquery text q position =>
      rw [List.mem_singleton.mp h]
      simp
      omega
    | columnReference tableAlias name text position => cases h
    | aggregate function tableAlias name position => cases h
    | literal text position => cases h
  | case2 left test query =>
    rw [List.mem_singleton.mp h]
    simp
  | case3 left test values => cases h
  | case4 query =>
    rw [List.mem_singleton.mp h]
    simp
  | case5 result => cases h
  | case6 c ih =>
    have hs := ih h
    simp
    omega
  | case7 left right ihl ihr =>
    rcases List.mem_append.mp h with h | h
    · have hs := ihl h
      simp
      omega
    · have hs := ihr h
      simp
      omega
  | case8 left right ihl ihr =>
    rcases List.mem_append.mp h with h | h
    · have hs := ihl h
      simp
      omega
    · have hs := ihr h
      simp
      omega

namespace ParsedQuery

/-- The size of a query without its `WITH` list. -/
noncomputable def ownSize (q : ParsedQuery) : Nat := sizeOf { q with commonTableExpressions := [] }

theorem ownSize_le (q : ParsedQuery) : q.ownSize ≤ sizeOf q := by
  have hctes : 1 ≤ sizeOf q.commonTableExpressions := by
    cases q.commonTableExpressions with
    | nil => simp
    | cons c ctes => simp; omega
  cases q
  simp [ownSize]
  exact hctes

theorem ownSize_congr {q : ParsedQuery} (ctes : List QueryCommonTableExpression) :
    ownSize { q with commonTableExpressions := ctes } = q.ownSize := rfl

theorem sizeOf_derivedTable {q d : ParsedQuery} (h : q.derivedTable = some d) :
    sizeOf d < q.ownSize := by
  cases q
  cases h
  simp [ownSize]
  omega

theorem sizeOf_whereSubqueries {q s : ParsedQuery} (h : s ∈ q.whereSubqueries) :
    sizeOf s < q.ownSize := by
  unfold whereSubqueries at h
  cases hc : q.condition with
  | none =>
    rw [hc] at h
    cases h
  | some c =>
    rw [hc] at h
    have hs := sizeOf_subqueries h
    cases q
    cases hc
    simp [ownSize]
    omega

theorem sizeOf_compound {q : ParsedQuery} {c : QueryCompound} (h : q.compound = some c) :
    sizeOf c.query < q.ownSize := by
  cases q
  cases h
  cases c
  simp [ownSize]
  omega

theorem sizeOf_commonTableExpression {q : ParsedQuery} {c : QueryCommonTableExpression}
    (h : c ∈ q.commonTableExpressions) : sizeOf c.query < sizeOf q := by
  have hc := List.sizeOf_lt_of_mem h
  cases q
  cases c
  simp at hc ⊢
  omega

/-- No size of the query or of an expression of its `WITH` list is above `n`. -/
def Within (n : Nat) (q : ParsedQuery) : Prop :=
  q.ownSize ≤ n ∧ ∀ c ∈ q.commonTableExpressions, c.query.ownSize ≤ n

theorem within_sizeOf (q : ParsedQuery) : q.Within (sizeOf q) :=
  ⟨q.ownSize_le, fun c hc =>
    (c.query.ownSize_le).trans (Nat.le_of_lt (sizeOf_commonTableExpression hc))⟩

theorem Within.mono {n m : Nat} {q : ParsedQuery} (h : q.Within n) (hnm : n ≤ m) : q.Within m :=
  ⟨h.1.trans hnm, fun c hc => (h.2 c hc).trans hnm⟩

/-- Following `FROM` stays within the sizes of the `WITH` list. -/
theorem Within.sourceQuery {n : Nat} {q s : ParsedQuery} (h : q.Within n)
    (hs : q.sourceQuery = some s) : s.Within n := by
  unfold ParsedQuery.sourceQuery at hs
  cases hd : q.derivedTable with
  | some d =>
    rw [hd] at hs
    cases hs
    have hsize := sizeOf_derivedTable hd
    have hown := d.ownSize_le
    exact ⟨by rw [ownSize_congr]; exact hown.trans ((Nat.le_of_lt hsize).trans h.1), h.2⟩
  | none =>
    rw [hd] at hs
    simp only [Option.map_eq_some_iff] at hs
    obtain ⟨c, hc, rfl⟩ := hs
    exact ⟨h.2 c (List.mem_of_find?_eq_some hc), h.2⟩

end ParsedQuery

/-! ## Queries that end -/

theorem exists_common_bound {l : List ParsedQuery} (h : ∀ s ∈ l, ∃ n, s.NestsWithin n) :
    ∃ n, ∀ s ∈ l, s.NestsWithin n := by
  induction l with
  | nil => exact ⟨0, fun s hs => by cases hs⟩
  | cons s l ih =>
    obtain ⟨n, hn⟩ := h s List.mem_cons_self
    obtain ⟨m, hm⟩ := ih fun t ht => h t (List.mem_cons_of_mem s ht)
    refine ⟨max n m, fun t ht => ?_⟩
    rcases List.mem_cons.mp ht with rfl | ht
    · exact hn.mono (Nat.le_max_left n m)
    · exact (hm t ht).mono (Nat.le_max_right n m)

theorem parts_of_compound {q : ParsedQuery} {c : QueryCompound} (h : q.compound = some c) :
    q.parts = q :: c.query.parts := by
  rw [ParsedQuery.parts, ParsedQuery.compounds_of_some h]
  rfl

/-- A query nests to some depth where its source does and smaller queries do. -/
theorem exists_nestsWithin_of_source {n : Nat} {q : ParsedQuery}
    (ih : ∀ k < n, ∀ p : ParsedQuery, p.Within k → p.SourcesEnd → ∃ m, p.NestsWithin m)
    (hq : q.Within n) (hends : q.SourcesEnd) (hsource : ∀ s ∈ q.sourceQuery, ∃ m, s.NestsWithin m) :
    ∃ m, q.NestsWithin m := by
  have hsmaller : ∀ s : ParsedQuery, sizeOf s < q.ownSize → q.Reaches s → ∃ m, s.NestsWithin m :=
    fun s hs hreach =>
      ih _ (hs.trans_le hq.1) s s.within_sizeOf (hends.of_reaches hreach)
  obtain ⟨m, hm⟩ := @exists_common_bound q.sourceQuery.toList fun s hs =>
    hsource s (Option.mem_toList.mp hs)
  obtain ⟨k, hk⟩ := @exists_common_bound q.whereSubqueries fun s hs =>
    hsmaller s (ParsedQuery.sizeOf_whereSubqueries hs) (.call .refl (.inr hs))
  have hcalls : ∀ s, q.Calls s → s.NestsWithin (max m k) := by
    rintro s (hs | hs)
    · exact (hm s (Option.mem_toList.mpr hs)).mono (Nat.le_max_left m k)
    · exact (hk s hs).mono (Nat.le_max_right m k)
  cases hc : q.compound with
  | none =>
    refine ⟨max m k + 1, fun p hp s hs => ?_⟩
    rw [ParsedQuery.parts, ParsedQuery.compounds_of_none hc, List.map_nil, List.mem_singleton] at hp
    subst hp
    exact hcalls s hs
  | some c =>
    obtain ⟨j, hj⟩ := hsmaller c.query (ParsedQuery.sizeOf_compound hc) (.part .refl hc)
    refine ⟨max (max m k) j + 1, fun p hp s hs => ?_⟩
    rw [parts_of_compound hc] at hp
    rcases List.mem_cons.mp hp with rfl | hp
    · exact (hcalls s hs).mono (Nat.le_max_left _ _)
    · exact hj.succ p hp s hs |>.mono (Nat.le_max_right _ _)

theorem exists_nestsWithin (n : Nat) {q : ParsedQuery} (hq : q.Within n) (hends : q.SourcesEnd) :
    ∃ m, q.NestsWithin m := by
  induction n using Nat.strongRecOn generalizing q with
  | ind n ih =>
    have hsmaller : ∀ k < n, ∀ p : ParsedQuery, p.Within k → p.SourcesEnd → ∃ m, p.NestsWithin m :=
      fun k hk p hp hends => ih k hk hp hends
    -- By induction on the chain of the names behind `FROM`.
    have hchain := hends q .refl
    induction hchain with
    | table hnone =>
      refine exists_nestsWithin_of_source hsmaller hq hends fun s hs => ?_
      rw [hnone] at hs
      cases hs
    | step hsome _ ihs =>
      refine exists_nestsWithin_of_source hsmaller hq hends fun s hs => ?_
      rw [hsome] at hs
      cases hs
      exact ihs (hq.sourceQuery hsome) (hends.of_reaches (.call .refl (.inl hsome)))

/-! ## Queries that do not -/

theorem sourceEnds_of_replace (outer : Outer) {q : ParsedQuery}
    (h : (replaceOuterReferences outer q).SourceEnds) : q.SourceEnds := by
  generalize hp : replaceOuterReferences outer q = p at h
  induction h generalizing q with
  | table hnone =>
    subst hp
    refine .table ?_
    rcases sourceQuery_replace outer q with heq | heq
    · rw [← heq, hnone]
    · rw [heq, Option.map_eq_none_iff] at hnone
      exact hnone
  | step hsome ends ih =>
    subst hp
    rcases sourceQuery_replace outer q with heq | heq
    · exact .step (heq.symm.trans hsome) ends
    · rw [heq, Option.map_eq_some_iff] at hsome
      obtain ⟨s, hs, heq⟩ := hsome
      exact .step hs (ih heq)

theorem executeRowSource_outOfFuel {env : SelectEnv} {f : ParsedQuery × Option Outer → Run QueryResult}
    {q s : ParsedQuery} (hs : q.sourceQuery = some s) (h : f (s, none) = .error .outOfFuel) :
    executeRowSource env f q = .error .outOfFuel := by
  unfold executeRowSource
  unfold ParsedQuery.sourceQuery at hs
  cases hd : q.derivedTable with
  | some d =>
    rw [hd] at hs
    cases hs
    dsimp only
    rw [h]
    rfl
  | none =>
    rw [hd] at hs
    simp only [Option.map_eq_some_iff] at hs
    obtain ⟨c, hc, rfl⟩ := hs
    dsimp only
    rw [hc]
    dsimp only
    rw [h]
    rfl

/-- A chain of names without end takes any fuel. -/
theorem outOfFuel_of_not_sourceEnds {q : ParsedQuery} (h : ¬ q.SourceEnds) (env : SelectEnv)
    (fuel : Nat) (outer : Option Outer) :
    executeSelectChain env fuel q outer = .error .outOfFuel := by
  refine outOfFuel_of_calls (fun i => ¬ i.1.SourceEnds) ?_ fuel h
  intro f i hi hcalls
  obtain ⟨q, outer⟩ := i
  have hprepared : ¬ (preparedQuery q outer).SourceEnds := by
    cases outer with
    | none => exact hi
    | some outer => exact fun h => hi (sourceEnds_of_replace outer h)
  cases hs : (preparedQuery q outer).sourceQuery with
  | none => exact absurd (.table hs) hprepared
  | some s =>
    have hsource := @executeRowSource_outOfFuel env _ _ _ hs
      (hcalls (s, none) fun hends => hprepared (.step hs hends))
    show (executeSelect env f (preparedQuery q outer) >>= _) = _
    unfold executeSelect
    rw [hsource]
    rfl

/-- `WITH a AS (SELECT * FROM a) SELECT * FROM a`. -/
def selfReference : ParsedQuery :=
  { ParsedQuery.allOf "a" with commonTableExpressions := [⟨"a", ParsedQuery.allOf "a"⟩] }

theorem selfReference_sourceQuery : selfReference.sourceQuery = some selfReference := rfl

theorem selfReference_endless : ¬ selfReference.SourceEnds := by
  intro h
  generalize hq : selfReference = q at h
  induction h with
  | table hnone =>
    subst hq
    rw [selfReference_sourceQuery] at hnone
    cases hnone
  | step hsome _ ih =>
    subst hq
    rw [selfReference_sourceQuery] at hsome
    exact ih (Option.some.inj hsome)

end ScratchDb.Select
