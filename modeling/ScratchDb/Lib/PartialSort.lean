import Mathlib.Data.List.Perm.Basic

/-!
# Sorting with a comparison that may fail

A comparison of two elements may have no answer. Insertion sort asks for some
comparisons only; where the answers are those of an order, it still fails exactly
on the lists in which two elements have no answer.
-/

namespace ScratchDb.PartialSort

variable {α β : Type}

/-! ## Comparisons -/

/-- The answers of a comparison are those of a preorder, and two elements that a third one lies
between have an answer. -/
structure Lawful (cmp : α → α → Option Ordering) : Prop where
  swap : ∀ a b, cmp b a = (cmp a b).map Ordering.swap
  trans : ∀ {a b c o o'}, cmp a b = some o → cmp b c = some o' → o.isLE = true → o'.isLE = true →
    cmp a c = some (o.then o')

/-- Elements are compared by what is read of them. -/
def compareBy (c : β → β → Ordering) (read : α → Option β) (a b : α) : Option Ordering := do
  let x ← read a
  let y ← read b
  pure (c x y)

/-- The other way round. -/
def reverse (cmp : α → α → Option Ordering) (a b : α) : Option Ordering :=
  (cmp a b).map Ordering.swap

/-- Where the first comparison is a tie, the second one is asked. -/
def lex (cmp cmp' : α → α → Option Ordering) (a b : α) : Option Ordering := do
  match ← cmp a b with
  | .eq => cmp' a b
  | o => pure o

theorem lawful_tie : Lawful fun (_ _ : α) => some .eq where
  swap _ _ := rfl
  trans h h' _ _ := by
    cases h
    cases h'
    rfl

theorem compareBy_eq_some {c : β → β → Ordering} {read : α → Option β} {a b : α} {o : Ordering} :
    compareBy c read a b = some o ↔ ∃ x y, read a = some x ∧ read b = some y ∧ c x y = o := by
  simp only [compareBy, Option.bind_eq_bind, Option.bind_eq_some_iff, Option.pure_def,
    Option.some.injEq]
  constructor
  · rintro ⟨x, hx, y, hy, rfl⟩
    exact ⟨x, y, hx, hy, rfl⟩
  · rintro ⟨x, y, hx, hy, rfl⟩
    exact ⟨x, hx, y, hy, rfl⟩

theorem lawful_compareBy (c : β → β → Ordering) [Std.TransCmp c] (read : α → Option β) :
    Lawful (compareBy c read) where
  swap a b := by
    unfold compareBy
    cases read a with
    | none =>
      cases read b with
      | none => rfl
      | some y => rfl
    | some x =>
      cases read b with
      | none => rfl
      | some y => exact congrArg some Std.OrientedCmp.eq_swap
  trans {a b d o o'} h h' hle hle' := by
    obtain ⟨x, y, hx, hy, rfl⟩ := compareBy_eq_some.mp h
    obtain ⟨y', z, hy', hz, rfl⟩ := compareBy_eq_some.mp h'
    cases hy.symm.trans hy'
    refine compareBy_eq_some.mpr ⟨x, z, hx, hz, ?_⟩
    cases hxy : c x y with
    | gt =>
      rw [hxy] at hle
      cases hle
    | eq => exact Std.TransCmp.congr_left hxy
    | lt => exact Std.TransCmp.lt_of_lt_of_isLE hxy hle'

/-- A comparison of what a function makes of the elements. -/
theorem Lawful.on {cmp : β → β → Option Ordering} (h : Lawful cmp) (f : α → β) :
    Lawful fun a b => cmp (f a) (f b) where
  swap a b := h.swap (f a) (f b)
  trans hab hbc hle hle' := h.trans hab hbc hle hle'

/-! Orderings that are not `gt`, the other way round. -/

theorem isLE_swap_cases {o : Ordering} (h : o.swap.isLE = true) : o = .eq ∨ o = .gt := by
  cases o with
  | lt => cases h
  | eq => exact .inl rfl
  | gt => exact .inr rfl

theorem Lawful.reverse {cmp : α → α → Option Ordering} (h : Lawful cmp) :
    Lawful (reverse cmp) where
  swap a b := by
    rw [PartialSort.reverse, PartialSort.reverse, h.swap a b]
  trans {a b c o o'} hab hbc hle hle' := by
    simp only [PartialSort.reverse, Option.map_eq_some_iff] at hab hbc
    obtain ⟨p, hp, rfl⟩ := hab
    obtain ⟨p', hp', rfl⟩ := hbc
    have hba : cmp b a = some p.swap := by rw [h.swap a b, hp]; rfl
    have hcb : cmp c b = some p'.swap := by rw [h.swap b c, hp']; rfl
    have hca := h.trans hcb hba hle' hle
    rw [PartialSort.reverse, ← h.swap, hca]
    rcases isLE_swap_cases hle with rfl | rfl
    · rcases isLE_swap_cases hle' with rfl | rfl
      · rfl
      · rfl
    · rcases isLE_swap_cases hle' with rfl | rfl
      · rfl
      · rfl

theorem lex_eq_some {cmp cmp' : α → α → Option Ordering} {a b : α} {o : Ordering} :
    lex cmp cmp' a b = some o ↔
      cmp a b = some .eq ∧ cmp' a b = some o ∨ cmp a b = some o ∧ o ≠ .eq := by
  unfold lex
  cases hcmp : cmp a b with
  | none => simp
  | some first =>
    cases first with
    | eq =>
      refine ⟨fun h => .inl ⟨rfl, h⟩, ?_⟩
      rintro (⟨-, h⟩ | ⟨h, hne⟩)
      · exact h
      · exact absurd (Option.some.inj h).symm hne
    | lt =>
      refine ⟨fun h => .inr ⟨h, ?_⟩, ?_⟩
      · rintro rfl
        cases h
      · rintro (⟨h, -⟩ | ⟨h, -⟩)
        · cases h
        · exact h
    | gt =>
      refine ⟨fun h => .inr ⟨h, ?_⟩, ?_⟩
      · rintro rfl
        cases h
      · rintro (⟨h, -⟩ | ⟨h, -⟩)
        · cases h
        · exact h

theorem Lawful.lex {cmp cmp' : α → α → Option Ordering} (h : Lawful cmp) (h' : Lawful cmp') :
    Lawful (lex cmp cmp') where
  swap a b := by
    unfold PartialSort.lex
    rw [h.swap a b, h'.swap a b]
    cases cmp a b with
    | none => rfl
    | some o =>
      cases o with
      | lt => rfl
      | eq => rfl
      | gt => rfl
  trans {a b c o o'} hab hbc hle hle' := by
    rw [lex_eq_some] at hab hbc ⊢
    rcases hab with ⟨htie, hab⟩ | ⟨hab, hne⟩
    · rcases hbc with ⟨htie', hbc⟩ | ⟨hbc, hne'⟩
      · exact .inl ⟨h.trans htie htie' rfl rfl, h'.trans hab hbc hle hle'⟩
      · -- a tie of the first comparison does not matter for the third element
        have hac := h.trans htie hbc rfl hle'
        cases o' with
        | eq => exact absurd rfl hne'
        | gt => cases hle'
        | lt =>
          cases o with
          | gt => cases hle
          | eq => exact .inr ⟨hac, by decide⟩
          | lt => exact .inr ⟨hac, by decide⟩
    · cases o with
      | eq => exact absurd rfl hne
      | gt => cases hle
      | lt =>
        refine .inr ⟨?_, hne⟩
        rcases hbc with ⟨htie', -⟩ | ⟨hbc, -⟩
        · have hac := h.trans hab htie' rfl rfl
          exact hac
        · exact h.trans hab hbc rfl hle'

/-! ## Insertion sort -/

section Insertion

variable (less : α → α → Option Bool)

/-- Before the elements that are not less. -/
def insert (a : α) : List α → Option (List α)
  | [] => pure [a]
  | b :: as => do
    if ← less b a then do
      let rest ← insert a as
      pure (b :: rest)
    else pure (a :: b :: as)

def sort : List α → Option (List α)
  | [] => pure []
  | a :: as => do
    let sorted ← sort as
    insert less a sorted

variable {less}

theorem insert_cons_eq_some {a b : α} {as sorted : List α}
    (h : insert less a (b :: as) = some sorted) :
    (∃ rest, less b a = some true ∧ insert less a as = some rest ∧ sorted = b :: rest) ∨
      less b a = some false ∧ sorted = a :: b :: as := by
  simp only [insert, Option.bind_eq_bind, Option.bind_eq_some_iff] at h
  obtain ⟨answer, hanswer, h⟩ := h
  cases answer with
  | true =>
    simp only [if_true, Option.bind_eq_some_iff] at h
    obtain ⟨rest, hrest, h⟩ := h
    cases h
    exact .inl ⟨rest, hanswer, hrest, rfl⟩
  | false =>
    cases h
    exact .inr ⟨hanswer, rfl⟩

theorem perm_insert {a : α} {as sorted : List α} (h : insert less a as = some sorted) :
    sorted.Perm (a :: as) := by
  induction as generalizing sorted with
  | nil =>
    cases h
    exact List.Perm.refl [a]
  | cons b as ih =>
    rcases insert_cons_eq_some h with ⟨rest, -, hrest, rfl⟩ | ⟨-, rfl⟩
    · exact ((ih hrest).cons b).trans (List.Perm.swap a b as)
    · exact List.Perm.refl _

theorem perm_sort {as sorted : List α} (h : sort less as = some sorted) : sorted.Perm as := by
  induction as generalizing sorted with
  | nil =>
    cases h
    exact List.Perm.refl []
  | cons a as ih =>
    simp only [sort, Option.bind_eq_bind, Option.bind_eq_some_iff] at h
    obtain ⟨rest, hrest, h⟩ := h
    exact (perm_insert h).trans ((ih hrest).cons a)

end Insertion

/-! ## Where the sort fails -/

section Less

variable {cmp : α → α → Option Ordering}

/-- The test that a sort is given. -/
def lessBy (cmp : α → α → Option Ordering) (a b : α) : Option Bool :=
  (cmp a b).map fun o => o == .lt

theorem lessBy_eq_none {a b : α} : lessBy cmp a b = none ↔ cmp a b = none := by
  rw [lessBy, Option.map_eq_none_iff]

/-- The later element is not less. -/
def NotAfter (cmp : α → α → Option Ordering) (a b : α) : Prop := ∃ o, cmp a b = some o ∧ o.isLE = true

theorem notAfter_of_lessBy (h : Lawful cmp) {a b : α} {answer : Bool}
    (hless : lessBy cmp b a = some answer) : if answer then NotAfter cmp b a else NotAfter cmp a b := by
  obtain ⟨o, ho, rfl⟩ := Option.map_eq_some_iff.mp hless
  have hswap : cmp a b = some o.swap := by rw [h.swap b a, ho]; rfl
  cases o with
  | lt => exact ⟨.lt, ho, rfl⟩
  | eq => exact ⟨.eq, hswap, rfl⟩
  | gt => exact ⟨.lt, hswap, rfl⟩

theorem NotAfter.trans (h : Lawful cmp) {a b c : α} (hab : NotAfter cmp a b)
    (hbc : NotAfter cmp b c) : NotAfter cmp a c := by
  obtain ⟨o, ho, hle⟩ := hab
  obtain ⟨o', ho', hle'⟩ := hbc
  refine ⟨o.then o', h.trans ho ho' hle hle', ?_⟩
  cases o with
  | lt => rfl
  | eq => exact hle'
  | gt => cases hle

theorem NotAfter.lessBy_ne_none (h : Lawful cmp) {a b : α} (hab : NotAfter cmp a b) :
    lessBy cmp b a ≠ none := by
  obtain ⟨o, ho, -⟩ := hab
  rw [Ne, lessBy_eq_none, h.swap a b, ho]
  exact fun hnone => by cases hnone

theorem pairwise_insert (h : Lawful cmp) {a : α} {as sorted : List α}
    (has : as.Pairwise (NotAfter cmp)) (hinsert : insert (lessBy cmp) a as = some sorted) :
    sorted.Pairwise (NotAfter cmp) := by
  induction as generalizing sorted with
  | nil =>
    cases hinsert
    exact List.pairwise_singleton _ a
  | cons b as ih =>
    obtain ⟨hb, hrest⟩ := List.pairwise_cons.mp has
    rcases insert_cons_eq_some hinsert with ⟨rest, hless, hrestInsert, rfl⟩ | ⟨hless, rfl⟩
    · refine List.pairwise_cons.mpr ⟨fun c hc => ?_, ih hrest hrestInsert⟩
      rcases List.mem_cons.mp ((perm_insert hrestInsert).subset hc) with rfl | hc
      · exact notAfter_of_lessBy h hless
      · exact hb c hc
    · have hab : NotAfter cmp a b := notAfter_of_lessBy h hless
      refine List.pairwise_cons.mpr ⟨fun c hc => ?_, has⟩
      rcases List.mem_cons.mp hc with rfl | hc
      · exact hab
      · exact hab.trans h (hb c hc)

theorem pairwise_sort (h : Lawful cmp) {as sorted : List α}
    (hsort : sort (lessBy cmp) as = some sorted) : sorted.Pairwise (NotAfter cmp) := by
  induction as generalizing sorted with
  | nil =>
    cases hsort
    exact List.Pairwise.nil
  | cons a as ih =>
    simp only [sort, Option.bind_eq_bind, Option.bind_eq_some_iff] at hsort
    obtain ⟨rest, hrest, hinsert⟩ := hsort
    exact pairwise_insert h (ih hrest) hinsert

/-- An element without answer lies behind no place where the insertion stops. -/
theorem insert_eq_none (h : Lawful cmp) {a : α} {as : List α} (has : as.Pairwise (NotAfter cmp)) :
    insert (lessBy cmp) a as = none ↔ ∃ b ∈ as, lessBy cmp b a = none := by
  induction as with
  | nil => simp [insert]
  | cons b as ih =>
    obtain ⟨hb, hrest⟩ := List.pairwise_cons.mp has
    rw [insert, List.exists_mem_cons_iff, ← ih hrest]
    cases hless : lessBy cmp b a with
    | none => exact ⟨fun _ => .inl rfl, fun _ => rfl⟩
    | some answer =>
      rw [or_iff_right (by simp)]
      cases answer with
      | true =>
        cases insert (lessBy cmp) a as with
        | none => exact ⟨fun _ => rfl, fun _ => rfl⟩
        | some rest => exact ⟨fun h => (by cases h), fun h => (by cases h)⟩
      | false =>
        refine ⟨fun h => (by cases h), fun hnone => ?_⟩
        obtain ⟨c, hc, hcnone⟩ := (ih hrest).mp hnone
        have hab : NotAfter cmp a b := notAfter_of_lessBy h hless
        exact absurd hcnone ((hab.trans h (hb c hc)).lessBy_ne_none h)

theorem sort_eq_none (h : Lawful cmp) {as : List α} :
    sort (lessBy cmp) as = none ↔ ¬ as.Pairwise fun a b => cmp a b ≠ none := by
  induction as with
  | nil => exact ⟨fun h => (by cases h), fun h => absurd List.Pairwise.nil h⟩
  | cons a as ih =>
    have hnone : ∀ b, lessBy cmp b a = none ↔ cmp a b = none := by
      intro b
      rw [lessBy_eq_none, h.swap a b, Option.map_eq_none_iff]
    rw [List.pairwise_cons, not_and_or, ← ih, sort]
    cases hsort : sort (lessBy cmp) as with
    | none => exact ⟨fun _ => .inr rfl, fun _ => rfl⟩
    | some sorted =>
      show insert (lessBy cmp) a sorted = none ↔ _
      rw [or_iff_left (by simp), insert_eq_none h (pairwise_sort h hsort), not_forall]
      constructor
      · rintro ⟨b, hb, hless⟩
        exact ⟨b, fun hall => hall ((perm_sort hsort).subset hb) ((hnone b).mp hless)⟩
      · rintro ⟨b, hb⟩
        rw [Classical.not_imp, not_not] at hb
        exact ⟨b, (perm_sort hsort).symm.subset hb.1, (hnone b).mpr hb.2⟩

/-! ## Stability -/

/-- The elements of `as` in order, those that tie in the order they have there. -/
structure StablySorted (cmp : α → α → Option Ordering) (as bs : List α) : Prop where
  perm : bs.Perm as
  sorted : bs.Pairwise (NotAfter cmp)
  stable : ∀ a, bs.filter (fun b => cmp a b = some .eq) = as.filter (fun b => cmp a b = some .eq)

/-- An element that passes others ties with none of them. -/
theorem filter_insert (h : Lawful cmp) (x : α) {a : α} {as sorted : List α}
    (hinsert : insert (lessBy cmp) a as = some sorted) :
    sorted.filter (fun b => cmp x b = some .eq) = (a :: as).filter (fun b => cmp x b = some .eq) := by
  induction as generalizing sorted with
  | nil =>
    cases hinsert
    rfl
  | cons b as ih =>
    rcases insert_cons_eq_some hinsert with ⟨rest, hless, hrest, rfl⟩ | ⟨-, rfl⟩
    · have hnot : ¬ (cmp x a = some .eq ∧ cmp x b = some .eq) := by
        rintro ⟨ha, hb⟩
        have hbx : cmp b x = some .eq := by
          rw [h.swap x b, hb]
          rfl
        have hba : cmp b a = some .eq := h.trans hbx ha rfl rfl
        rw [lessBy, hba] at hless
        cases hless
      rw [List.filter_cons, ih hrest]
      by_cases ha : cmp x a = some .eq
      · have hb : ¬ cmp x b = some .eq := fun hb => hnot ⟨ha, hb⟩
        simp [ha, hb]
      · simp [List.filter_cons, ha]
    · rfl

theorem stablySorted_sort (h : Lawful cmp) {as sorted : List α}
    (hsort : sort (lessBy cmp) as = some sorted) : StablySorted cmp as sorted := by
  refine ⟨perm_sort hsort, pairwise_sort h hsort, fun x => ?_⟩
  induction as generalizing sorted with
  | nil =>
    cases hsort
    rfl
  | cons a as ih =>
    simp only [sort, Option.bind_eq_bind, Option.bind_eq_some_iff] at hsort
    obtain ⟨rest, hrest, hinsert⟩ := hsort
    rw [filter_insert h x hinsert, List.filter_cons, List.filter_cons, ih hrest]

/-- Two elements that are not after each other tie, also with themselves. -/
theorem NotAfter.tie (h : Lawful cmp) {a b : α} (hab : NotAfter cmp a b) (hba : NotAfter cmp b a) :
    cmp a b = some .eq ∧ cmp a a = some .eq := by
  obtain ⟨o, ho, hle⟩ := hab
  obtain ⟨o', ho', hle'⟩ := hba
  have hswap : o' = o.swap := by
    rw [h.swap a b, ho] at ho'
    exact (Option.some_inj.mp ho').symm
  have heq : o = .eq := by
    rw [hswap] at hle'
    cases o with
    | eq => rfl
    | lt => cases hle'
    | gt => cases hle
  subst heq
  rw [hswap] at ho'
  exact ⟨ho, h.trans ho ho' rfl rfl⟩

/-- There is one way to sort a list stably, so any stable sort finds it. -/
theorem StablySorted.unique (h : Lawful cmp) {as bs cs : List α} (hbs : StablySorted cmp as bs)
    (hcs : StablySorted cmp as cs) : bs = cs := by
  have hperm := hbs.perm.trans hcs.perm.symm
  have hclass := fun x => (hbs.stable x).trans (hcs.stable x).symm
  have hsorted := hbs.sorted
  have hsorted' := hcs.sorted
  clear hbs hcs
  induction bs generalizing cs with
  | nil => exact hperm.nil_eq
  | cons b bs ih =>
    cases cs with
    | nil => exact absurd hperm.length_eq (by simp)
    | cons c cs =>
      obtain ⟨hb, hbs⟩ := List.pairwise_cons.mp hsorted
      obtain ⟨hc, hcs⟩ := List.pairwise_cons.mp hsorted'
      have hhead : b = c := by
        by_contra hne
        -- each head comes behind the other one, so they tie, and ties keep their order
        have hcb : c ∈ bs := by
          rcases List.mem_cons.mp (hperm.symm.subset List.mem_cons_self) with heq | hmem
          · exact absurd heq.symm hne
          · exact hmem
        have hbc : b ∈ cs := by
          rcases List.mem_cons.mp (hperm.subset List.mem_cons_self) with heq | hmem
          · exact absurd heq hne
          · exact hmem
        obtain ⟨htie, hself⟩ := NotAfter.tie h (hb c hcb) (hc b hbc)
        have hfilter := hclass b
        rw [List.filter_cons_of_pos (by simpa using hself),
          List.filter_cons_of_pos (by simpa using htie)] at hfilter
        exact hne (List.cons.inj hfilter).1
      subst hhead
      rw [ih hperm.cons_inv (fun x => ?_) hbs hcs]
      have hfilter := hclass x
      by_cases hx : cmp x b = some .eq
      · rw [List.filter_cons_of_pos (by simpa using hx),
          List.filter_cons_of_pos (by simpa using hx)] at hfilter
        exact (List.cons.inj hfilter).2
      · rwa [List.filter_cons_of_neg (by simpa using hx),
          List.filter_cons_of_neg (by simpa using hx)] at hfilter

/-- What comes first is not after what comes later. -/
theorem StablySorted.notAfter_of_take {as bs : List α} (h : StablySorted cmp as bs) (n : Nat) :
    ∀ a ∈ bs.take n, ∀ b ∈ bs.drop n, NotAfter cmp a b := by
  have hsplit := h.sorted
  rw [← List.take_append_drop n bs, List.pairwise_append] at hsplit
  exact hsplit.2.2

end Less

end ScratchDb.PartialSort
