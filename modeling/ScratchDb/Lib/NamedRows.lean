import Mathlib.Data.List.Basic
import Mathlib.Data.List.Forall2

/-!
# Rows of named values

A row lists values behind names. Rows that agree on the names they share merge
to one row, and the natural join of some lists of rows has a row for each choice
of one row from every list, where each row agrees with those before it. Where
agreeing is equality, the rows of a choice agree two by two.
-/

namespace NamedRows

variable {κ α β : Type*} [DecidableEq κ]

def names (r : List (κ × α)) : List κ := r.map (·.1)

/-- The values of `r`, and those of `s` behind other names. -/
def merge (r s : List (κ × α)) : List (κ × α) := r ++ s.filter fun p => p.1 ∉ names r

def mergeAll (rows : List (List (κ × α))) : List (κ × α) := rows.foldl merge []

/-- The values of `r` against those that `s` has behind the same names. -/
def agrees (same : α → α → Bool) (r s : List (κ × α)) : Bool :=
  r.all fun p =>
    match s.lookup p.1 with
    | none => true
    | some b => same p.2 b

/-! ## Joins -/

/-- The natural join of two lists of rows. -/
def join (same : α → α → Bool) (ls rs : List (List (κ × α))) : List (List (κ × α)) :=
  ls.flatMap fun l => (rs.filter (agrees same l)).map (merge l)

/-- One element of every list; those of the first list vary slowest. -/
def choices : List (List β) → List (List β)
  | [] => [[]]
  | bs :: more => bs.flatMap fun b => (choices more).map (b :: ·)

/-- Each row agrees with what the rows before it merge to. -/
def joinableAfter (same : α → α → Bool) (r : List (κ × α)) : List (List (κ × α)) → Bool
  | [] => true
  | s :: more => agrees same r s && joinableAfter same (merge r s) more

def joinable (same : α → α → Bool) (rows : List (List (κ × α))) : Bool :=
  joinableAfter same [] rows

/-- The rows that a choice of rows merges to, behind those that have been joined already. -/
theorem foldl_join (same : α → α → Bool) (tables : List (List (List (κ × α))))
    (ls : List (List (κ × α))) :
    tables.foldl (join same) ls = ls.flatMap fun l =>
      ((choices tables).filter (joinableAfter same l)).map (·.foldl merge l) := by
  induction tables generalizing ls with
  | nil =>
    -- nothing is chosen, and the rows stay as they are
    rw [List.foldl_nil]
    exact (List.flatMap_singleton' ls).symm
  | cons rs tables ih =>
    rw [List.foldl_cons, ih, join, List.flatMap_assoc]
    refine congrArg (ls.flatMap ·) (funext fun l => ?_)
    rw [List.flatMap_map, choices, List.filter_flatMap, List.map_flatMap]
    -- the choices with a row `s` in front go on only if `s` agrees with `l`
    induction rs with
    | nil => rfl
    | cons s rs ihrows =>
      rw [List.flatMap_cons, ← ihrows, List.filter_cons, List.filter_map, List.map_map]
      by_cases hagrees : agrees same l s = true
      · rw [if_pos hagrees, List.flatMap_cons]
        refine congrArg (· ++ _) (congrArg (List.map _) (List.filter_congr fun c _ => ?_))
        rw [Function.comp_apply, joinableAfter, hagrees, Bool.true_and]
      · have hnone : (choices tables).filter (joinableAfter same l ∘ (s :: ·)) = [] := by
          refine List.filter_eq_nil_iff.mpr fun c _ => ?_
          have hrefused : agrees same l s = false := by simpa using hagrees
          rw [Function.comp_apply, joinableAfter, hrefused]
          exact Bool.false_ne_true
        rw [if_neg hagrees, hnone]
        rfl

/-- The natural join of lists of rows. -/
theorem foldl_join_nil (same : α → α → Bool) (tables : List (List (List (κ × α)))) :
    tables.foldl (join same) [[]] = ((choices tables).filter (joinable same)).map mergeAll := by
  rw [foldl_join, List.flatMap_singleton]
  rfl

theorem merge_nil (s : List (κ × α)) : merge [] s = s := by
  simp [merge, names]

theorem join_nil (same : α → α → Bool) (rs : List (List (κ × α))) : join same [[]] rs = rs := by
  have hall : rs.filter (agrees same []) = rs := List.filter_eq_self.mpr fun _ _ => rfl
  rw [join, List.flatMap_singleton, hall]
  refine (List.map_congr_left fun s _ => merge_nil s).trans ?_
  exact List.map_id rs

/-! ## Names -/

theorem names_merge (r s : List (κ × α)) :
    names (merge r s) = names r ++ (names s).filter (· ∉ names r) := by
  rw [names, merge, List.map_append, names, names, List.filter_map]
  rfl

theorem nodup_names_merge {r s : List (κ × α)} (hr : (names r).Nodup) (hs : (names s).Nodup) :
    (names (merge r s)).Nodup := by
  rw [names_merge]
  refine List.nodup_append.mpr ⟨hr, hs.filter _, ?_⟩
  intro a ha b hb hab
  have hnot := (List.mem_filter.mp hb).2
  rw [decide_eq_true_eq] at hnot
  exact hnot (hab ▸ ha)

theorem length_le_foldl_merge (rows : List (List (κ × α))) (r : List (κ × α)) :
    r.length ≤ (rows.foldl merge r).length := by
  induction rows generalizing r with
  | nil => exact Nat.le_refl _
  | cons s rows ih =>
    refine Nat.le_trans ?_ (ih (merge r s))
    rw [merge, List.length_append]
    exact Nat.le_add_right _ _

theorem names_eq {R : α → β → Prop} {r : List (κ × α)} {r' : List (κ × β)}
    (h : List.Forall₂ (fun p q => p.1 = q.1 ∧ R p.2 q.2) r r') : names r = names r' := by
  rw [names, names]
  induction h with
  | nil => rfl
  | cons hp _ ih => rw [List.map_cons, List.map_cons, hp.1, ih]

/-- Rows under the same names merge alike, value by value. -/
theorem forall₂_merge {R : α → β → Prop} {r s : List (κ × α)} {r' s' : List (κ × β)}
    (hr : List.Forall₂ (fun p q => p.1 = q.1 ∧ R p.2 q.2) r r')
    (hs : List.Forall₂ (fun p q => p.1 = q.1 ∧ R p.2 q.2) s s') :
    List.Forall₂ (fun p q => p.1 = q.1 ∧ R p.2 q.2) (merge r s) (merge r' s') := by
  have hnames := names_eq hr
  refine List.rel_append hr ?_
  rw [hnames]
  induction hs with
  | nil => exact .nil
  | @cons p q s s' hp _ ih =>
    by_cases hmem : q.1 ∈ names r'
    · rw [List.filter_cons_of_neg (by simpa [hp.1] using hmem),
        List.filter_cons_of_neg (by simpa using hmem)]
      exact ih
    · rw [List.filter_cons_of_pos (by simpa [hp.1] using hmem),
        List.filter_cons_of_pos (by simpa using hmem)]
      exact .cons hp ih

theorem forall₂_mergeAll {R : α → β → Prop} {rows : List (List (κ × α))}
    {rows' : List (List (κ × β))}
    (h : List.Forall₂ (List.Forall₂ fun p q => p.1 = q.1 ∧ R p.2 q.2) rows rows') :
    List.Forall₂ (fun p q => p.1 = q.1 ∧ R p.2 q.2) (mergeAll rows) (mergeAll rows') := by
  have hfold : ∀ {r : List (κ × α)} {r' : List (κ × β)},
      List.Forall₂ (fun p q => p.1 = q.1 ∧ R p.2 q.2) r r' →
      List.Forall₂ (fun p q => p.1 = q.1 ∧ R p.2 q.2) (rows.foldl merge r)
        (rows'.foldl merge r') := by
    induction h with
    | nil => exact fun hr => hr
    | cons hs _ ih => exact fun hr => ih (forall₂_merge hr hs)
  exact hfold .nil

/-! ## Rows that agree two by two -/

/-- The values behind the names that both rows have are equal. -/
def SharedEqual (r s : List (κ × α)) : Prop :=
  ∀ k a b, r.lookup k = some a → s.lookup k = some b → a = b

/-- On the names that both rows have, the comparison decides equality. -/
def Decides (same : α → α → Bool) (r s : List (κ × α)) : Prop :=
  ∀ k a b, r.lookup k = some a → s.lookup k = some b → (same a b = true ↔ a = b)

theorem lookup_filter_names (r s : List (κ × α)) (k : κ) :
    (s.filter fun p => p.1 ∉ names r).lookup k =
      if k ∈ names r then none else s.lookup k := by
  induction s with
  | nil =>
    split
    · rfl
    · rfl
  | cons p s ih =>
    by_cases hkey : k = p.1
    · subst hkey
      by_cases hmem : p.1 ∈ names r
      · rw [List.filter_cons_of_neg (by simpa using hmem), ih]
        rw [if_pos hmem, if_pos hmem]
      · rw [List.filter_cons_of_pos (by simpa using hmem), if_neg hmem, List.lookup_cons,
          List.lookup_cons]
        simp
    · have hother : ∀ s' : List (κ × α), (p :: s').lookup k = s'.lookup k := by
        intro s'
        rw [List.lookup_cons, beq_eq_false_iff_ne.mpr hkey]
      rw [hother, ← ih, List.filter_cons]
      split
      · exact hother _
      · rfl

/-- A merged row has the value of the first row behind a name, else that of the second. -/
theorem lookup_merge (r s : List (κ × α)) (k : κ) :
    (merge r s).lookup k = (r.lookup k).or (s.lookup k) := by
  rw [merge, List.lookup_append, lookup_filter_names]
  cases hr : r.lookup k with
  | some a => rfl
  | none =>
    rw [if_neg]
    intro hmem
    obtain ⟨p, hp, hname⟩ := List.mem_map.mp hmem
    have hne := List.lookup_eq_none_iff.mp hr p hp
    simp [hname] at hne

theorem lookup_of_mem {r : List (κ × α)} (hr : (names r).Nodup) {p : κ × α} (hp : p ∈ r) :
    r.lookup p.1 = some p.2 := by
  induction r with
  | nil => exact absurd hp List.not_mem_nil
  | cons q r ih =>
    obtain ⟨hq, hr⟩ := List.nodup_cons.mp hr
    rcases List.mem_cons.mp hp with rfl | hp
    · exact List.lookup_cons_self
    · have hne : p.1 ≠ q.1 := fun heq => hq (List.mem_map.mpr ⟨p, hp, heq⟩)
      rw [List.lookup_cons, beq_eq_false_iff_ne.mpr hne]
      exact ih hr hp

theorem mem_of_lookup {r : List (κ × α)} {k : κ} {a : α} (h : r.lookup k = some a) :
    (k, a) ∈ r := by
  obtain ⟨before, after, heq, -⟩ := List.lookup_eq_some_iff.mp h
  rw [heq]
  simp

/-- Rows under the same names have their values behind a name side by side. -/
theorem exists_lookup {R : α → β → Prop} {r : List (κ × α)} {r' : List (κ × β)}
    (h : List.Forall₂ (fun p q => p.1 = q.1 ∧ R p.2 q.2) r r') {k : κ} {a : α}
    (ha : r.lookup k = some a) : ∃ b, r'.lookup k = some b ∧ R a b := by
  induction h with
  | nil => cases ha
  | @cons p q r r' hp _ ih =>
    rw [List.lookup_cons] at ha ⊢
    by_cases hkey : k = p.1
    · rw [beq_iff_eq.mpr hkey] at ha
      cases ha
      rw [beq_iff_eq.mpr (hkey.trans hp.1)]
      exact ⟨q.2, rfl, hp.2⟩
    · rw [beq_eq_false_iff_ne.mpr hkey] at ha
      rw [beq_eq_false_iff_ne.mpr (hp.1 ▸ hkey)]
      exact ih ha

theorem agrees_iff {same : α → α → Bool} {r s : List (κ × α)} (hr : (names r).Nodup)
    (h : Decides same r s) : agrees same r s = true ↔ SharedEqual r s := by
  rw [agrees, List.all_eq_true]
  constructor
  · intro hall k a b ha hb
    have hp := hall (k, a) (mem_of_lookup ha)
    dsimp only at hp
    rw [hb] at hp
    exact (h k a b ha hb).mp hp
  · intro hshared p hp
    have ha := lookup_of_mem hr hp
    cases hb : s.lookup p.1 with
    | none => rfl
    | some b => exact (h p.1 p.2 b ha hb).mpr (hshared p.1 p.2 b ha hb)

theorem sharedEqual_merge {r s t : List (κ × α)} (hrs : SharedEqual r s) :
    SharedEqual (merge r s) t ↔ SharedEqual r t ∧ SharedEqual s t := by
  constructor
  · intro h
    constructor
    · intro k a b ha hb
      exact h k a b (by rw [lookup_merge, ha]; rfl) hb
    · intro k a b ha hb
      -- behind a name of both rows the merged row has the value of either
      cases hr : r.lookup k with
      | none => exact h k a b (by rw [lookup_merge, hr, ha]; rfl) hb
      | some a' =>
        have heq := hrs k a' a hr ha
        exact heq ▸ h k a' b (by rw [lookup_merge, hr]; rfl) hb
  · rintro ⟨hr, hs⟩ k a b ha hb
    rw [lookup_merge] at ha
    rcases Option.or_eq_some_iff.mp ha with ha | ⟨-, ha⟩
    · exact hr k a b ha hb
    · exact hs k a b ha hb

theorem decides_merge {same : α → α → Bool} {r s t : List (κ × α)} (hr : Decides same r t)
    (hs : Decides same s t) : Decides same (merge r s) t := by
  intro k a b ha hb
  rw [lookup_merge] at ha
  rcases Option.or_eq_some_iff.mp ha with ha | ⟨-, ha⟩
  · exact hr k a b ha hb
  · exact hs k a b ha hb

theorem joinableAfter_iff {same : α → α → Bool} {rows : List (List (κ × α))} {r : List (κ × α)}
    (hnames : ∀ s ∈ r :: rows, (names s).Nodup) (h : (r :: rows).Pairwise (Decides same)) :
    joinableAfter same r rows = true ↔ (r :: rows).Pairwise SharedEqual := by
  induction rows generalizing r with
  | nil => exact ⟨fun _ => List.pairwise_singleton _ r, fun _ => rfl⟩
  | cons s rows ih =>
    obtain ⟨hrdecides, hrest⟩ := List.pairwise_cons.mp h
    obtain ⟨hsdecides, hmore⟩ := List.pairwise_cons.mp hrest
    have hrnames := hnames r List.mem_cons_self
    have hsnames := hnames s (List.mem_cons_of_mem r List.mem_cons_self)
    -- the merged row goes on in the place of both
    have hmerged : ∀ t ∈ merge r s :: rows, (names t).Nodup := by
      intro t ht
      rcases List.mem_cons.mp ht with rfl | ht
      · exact nodup_names_merge hrnames hsnames
      · exact hnames t (List.mem_cons_of_mem r (List.mem_cons_of_mem s ht))
    have hdecides : (merge r s :: rows).Pairwise (Decides same) := by
      refine List.pairwise_cons.mpr ⟨fun t ht => ?_, hmore⟩
      exact decides_merge (hrdecides t (List.mem_cons_of_mem s ht)) (hsdecides t ht)
    have hagrees := agrees_iff hrnames (hrdecides s List.mem_cons_self)
    rw [joinableAfter, Bool.and_eq_true, hagrees, ih hmerged hdecides, List.pairwise_cons,
      List.pairwise_cons, List.pairwise_cons]
    constructor
    · rintro ⟨hrs, hmergedEqual, hpairs⟩
      have hboth : ∀ t ∈ rows, SharedEqual r t ∧ SharedEqual s t :=
        fun t ht => (sharedEqual_merge hrs).mp (hmergedEqual t ht)
      refine ⟨fun t ht => ?_, fun t ht => (hboth t ht).2, hpairs⟩
      rcases List.mem_cons.mp ht with rfl | ht
      · exact hrs
      · exact (hboth t ht).1
    · rintro ⟨hr, hs, hpairs⟩
      have hrs := hr s List.mem_cons_self
      refine ⟨hrs, fun t ht => ?_, hpairs⟩
      exact (sharedEqual_merge hrs).mpr ⟨hr t (List.mem_cons_of_mem s ht), hs t ht⟩

/-- Where the comparison decides equality, the rows of a choice join if they agree two by two. -/
theorem joinable_iff {same : α → α → Bool} {rows : List (List (κ × α))}
    (hnames : ∀ s ∈ rows, (names s).Nodup) (h : rows.Pairwise (Decides same)) :
    joinable same rows = true ↔ rows.Pairwise SharedEqual := by
  have hnone : ∀ {R : List (κ × α) → List (κ × α) → Prop}, (∀ s, R [] s) →
      (([] :: rows).Pairwise R ↔ rows.Pairwise R) := by
    intro R hR
    rw [List.pairwise_cons]
    exact and_iff_right fun s _ => hR s
  have hempty : ∀ s : List (κ × α), SharedEqual [] s := fun s k a b ha _ => by cases ha
  rw [joinable, joinableAfter_iff, hnone hempty]
  · intro s hs
    rcases List.mem_cons.mp hs with rfl | hs
    · exact List.nodup_nil
    · exact hnames s hs
  · exact (hnone fun s k a b ha _ => by cases ha).mpr h

theorem mem_choices {tables : List (List β)} {c : List β} :
    c ∈ choices tables ↔ List.Forall₂ (· ∈ ·) c tables := by
  induction tables generalizing c with
  | nil =>
    rw [choices, List.mem_singleton, List.forall₂_nil_right_iff]
  | cons bs tables ih =>
    rw [choices, List.mem_flatMap, List.forall₂_cons_right_iff]
    constructor
    · rintro ⟨b, hb, hmem⟩
      obtain ⟨c, hc, rfl⟩ := List.mem_map.mp hmem
      exact ⟨b, c, hb, ih.mp hc, rfl⟩
    · rintro ⟨b, c, hb, hc, rfl⟩
      exact ⟨b, hb, List.mem_map_of_mem (ih.mpr hc)⟩

end NamedRows
