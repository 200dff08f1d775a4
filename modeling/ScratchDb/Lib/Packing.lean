import Mathlib.Data.List.Chain
import Mathlib.Logic.Function.Iterate
import Mathlib.Tactic.Ring

/-!
# Greedy packing

Cutting a list into consecutive groups, where a group takes the next element
as long as it fits: the groups are the list again, and each of them fits. Then
packing in rounds, each over the first elements of the groups of the round
before: a round either leaves fewer elements or changes nothing.
-/

namespace Packing

variable {α : Type*} (fits : List α → Bool)

/-- The groups that follow the open group `g`. -/
def packFrom (g : List α) : List α → List (List α)
  | [] => [g]
  | a :: as => if fits (g ++ [a]) then packFrom (g ++ [a]) as else g :: packFrom [a] as

/-- The groups of a list, the last of them still open. -/
def pack (as : List α) : List (List α) := packFrom fits [] as

@[simp] theorem flatten_packFrom (g as : List α) : (packFrom fits g as).flatten = g ++ as := by
  induction as generalizing g with
  | nil => simp [packFrom]
  | cons a as ih =>
    rw [packFrom]
    split <;> simp [ih]

@[simp] theorem flatten_pack (as : List α) : (pack fits as).flatten = as := by
  simp [pack]

theorem packFrom_ne_nil (g as : List α) : packFrom fits g as ≠ [] := by
  induction as generalizing g with
  | nil => simp [packFrom]
  | cons a as ih =>
    rw [packFrom]
    split
    · exact ih _
    · simp

variable {fits}

/-- Elements that fit alone are packed into groups that fit. -/
theorem fits_of_mem_packFrom {g as : List α} (hone : ∀ a ∈ as, fits [a] = true)
    (hg : fits g = true) : ∀ h ∈ packFrom fits g as, fits h = true := by
  induction as generalizing g with
  | nil => simpa [packFrom] using hg
  | cons a as ih =>
    have hrest : ∀ b ∈ as, fits [b] = true := fun b hb => hone b (List.mem_cons_of_mem _ hb)
    rw [packFrom]
    split
    · rename_i hfits
      exact ih hrest hfits
    · intro h hmem
      rcases List.mem_cons.mp hmem with rfl | hmem
      · exact hg
      · exact ih hrest (hone a (List.mem_cons_self ..)) h hmem

/-- Only an open group that nothing was put into is empty. -/
theorem ne_nil_of_mem_packFrom {g as : List α} (hone : ∀ a ∈ as, fits [a] = true)
    (hg : g ≠ [] ∨ as ≠ []) : ∀ h ∈ packFrom fits g as, h ≠ [] := by
  induction as generalizing g with
  | nil =>
    intro h hmem
    rw [packFrom, List.mem_singleton] at hmem
    exact hmem ▸ hg.resolve_right (by simp)
  | cons a as ih =>
    have hrest : ∀ b ∈ as, fits [b] = true := fun b hb => hone b (List.mem_cons_of_mem _ hb)
    rw [packFrom]
    split
    · exact ih hrest (.inl (by simp))
    · rename_i hfits
      intro h hmem
      rcases List.mem_cons.mp hmem with rfl | hmem
      · rintro rfl
        exact hfits (hone a (List.mem_cons_self ..))
      · exact ih hrest (.inl (by simp)) h hmem

/-- What fits as a whole is one group. -/
theorem packFrom_of_fits {g as : List α} (h : ∀ p, p <+: as → fits (g ++ p) = true) :
    packFrom fits g as = [g ++ as] := by
  induction as generalizing g with
  | nil => simp [packFrom]
  | cons a as ih =>
    rw [packFrom, if_pos (h [a] (by simp)), ih fun p hp => ?_, List.append_assoc,
      List.singleton_append]
    rw [List.append_assoc, List.singleton_append]
    exact h (a :: p) (List.cons_prefix_cons.mpr ⟨rfl, hp⟩)

/-! ## Rounds -/

theorem packFrom_map {β : Type*} (fits : List β → Bool) (f : α → β) (g as : List α) :
    packFrom fits (g.map f) (as.map f) =
      (packFrom (fun h => fits (h.map f)) g as).map (List.map f) := by
  induction as generalizing g with
  | nil => simp [packFrom]
  | cons a as ih =>
    have hopen : g.map f ++ [f a] = (g ++ [a]).map f := by simp
    have hone : [f a] = [a].map f := rfl
    rw [List.map_cons, packFrom, packFrom, hopen]
    split
    · rw [ih]
    · rw [hone, ih, List.map_cons]

theorem pack_map {β : Type*} (fits : List β → Bool) (f : α → β) (as : List α) :
    pack fits (as.map f) = (pack (fun h => fits (h.map f)) as).map (List.map f) :=
  packFrom_map fits f [] as

/-- The first elements of the groups. -/
def firsts (fits : List α → Bool) (as : List α) : List α := (pack fits as).filterMap List.head?

theorem mem_of_mem_firsts {a : α} {as : List α} (h : a ∈ firsts fits as) : a ∈ as := by
  obtain ⟨g, hg, ha⟩ := List.mem_filterMap.mp h
  rw [← flatten_pack fits as]
  exact List.mem_flatten.mpr ⟨g, hg, List.mem_of_mem_head? ha⟩

/-- No two neighbours fit together. -/
def Crowded (fits : List α → Bool) (as : List α) : Prop :=
  as.IsChain fun a b => fits [a, b] = false

/-- There are several elements, and no two neighbours fit together. -/
def Stuck (fits : List α → Bool) (as : List α) : Prop := 2 ≤ as.length ∧ Crowded fits as

theorem length_packFrom_le (g as : List α) : (packFrom fits g as).length ≤ as.length + 1 := by
  induction as generalizing g with
  | nil => simp [packFrom]
  | cons a as ih =>
    have h := ih (g ++ [a])
    have h' := ih [a]
    rw [packFrom]
    split
    · rw [List.length_cons]
      omega
    · rw [List.length_cons, List.length_cons]
      omega

/-- Two neighbours that fit together save a group. -/
theorem length_packFrom_lt {a : α} {as : List α} (h : ¬ Crowded fits (a :: as)) :
    (packFrom fits [a] as).length < as.length + 1 := by
  induction as generalizing a with
  | nil => exact absurd (List.IsChain.singleton a) h
  | cons b as ih =>
    rw [packFrom]
    split
    · have := @length_packFrom_le _ fits ([a] ++ [b]) as
      rw [List.length_cons]
      omega
    · rename_i hfits
      have hrest : ¬ Crowded fits (b :: as) := fun hrest =>
        h (List.isChain_cons_cons.mpr ⟨Bool.eq_false_iff.mpr hfits, hrest⟩)
      have := ih hrest
      rw [List.length_cons, List.length_cons]
      omega

theorem packFrom_of_crowded {a : α} {as : List α} (h : Crowded fits (a :: as)) :
    packFrom fits [a] as = (a :: as).map fun b => [b] := by
  induction as generalizing a with
  | nil => rfl
  | cons b as ih =>
    obtain ⟨hfits, hrest⟩ := List.isChain_cons_cons.mp h
    rw [packFrom, List.singleton_append, hfits, ih hrest]
    rfl

theorem firsts_cons (a : α) (as : List α) :
    firsts fits (a :: as) = (packFrom fits [a] as).filterMap List.head? := by
  rw [firsts, pack, packFrom, List.nil_append]
  split
  · rfl
  · rw [List.filterMap_cons_none]
    rfl

theorem head?_filterMap_packFrom (a : α) (g as : List α) :
    ((packFrom fits (a :: g) as).filterMap List.head?).head? = some a := by
  induction as generalizing g with
  | nil => rfl
  | cons b as ih =>
    rw [packFrom]
    split
    · exact ih (g ++ [b])
    · rfl

/-- The first element stays the first. -/
theorem firsts_ne_nil {as : List α} (h : as ≠ []) : firsts fits as ≠ [] := by
  cases as with
  | nil => exact absurd rfl h
  | cons a as =>
    intro hnil
    have hhead := @head?_filterMap_packFrom _ fits a [] as
    rw [← firsts_cons, hnil] at hhead
    cases hhead

/-- A round over neighbours that do not fit together changes nothing. -/
theorem firsts_of_crowded {as : List α} (h : Crowded fits as) : firsts fits as = as := by
  cases as with
  | nil => rfl
  | cons a as =>
    rw [firsts_cons, packFrom_of_crowded h, List.filterMap_map]
    exact List.filterMap_some

/-- Any other round leaves fewer elements. -/
theorem length_firsts_lt {as : List α} (h : ¬ Crowded fits as) :
    (firsts fits as).length < as.length := by
  cases as with
  | nil => exact absurd List.IsChain.nil h
  | cons a as =>
    rw [firsts_cons]
    exact Nat.lt_of_le_of_lt (List.length_filterMap_le _ _) (length_packFrom_lt h)

theorem length_firsts_le (as : List α) : (firsts fits as).length ≤ as.length := by
  by_cases h : Crowded fits as
  · exact Nat.le_of_eq (congrArg List.length (firsts_of_crowded h))
  · exact Nat.le_of_lt (length_firsts_lt h)

/-- What is stuck stays as it is. -/
theorem Stuck.iterate {as : List α} (h : Stuck fits as) (n : Nat) : (firsts fits)^[n] as = as :=
  Function.iterate_fixed (firsts_of_crowded h.2) n

/-- The rounds come down to one element exactly if they never are stuck. -/
theorem exists_iterate_le_one_iff {as : List α} :
    (∃ n, ((firsts fits)^[n] as).length ≤ 1) ↔ ∀ n, ¬ Stuck fits ((firsts fits)^[n] as) := by
  constructor
  · rintro ⟨n, hn⟩ m hstuck
    have hlen : ∀ k bs, ((firsts fits)^[k] bs).length ≤ bs.length := by
      intro k
      induction k with
      | zero => exact fun bs => Nat.le_refl _
      | succ k ih => exact fun bs => Nat.le_trans (ih _) (length_firsts_le bs)
    -- round `n` comes before the rounds are stuck or after it
    have hlong := hstuck.1
    rcases Nat.le_total m n with hmn | hmn
    · obtain ⟨k, rfl⟩ := Nat.exists_eq_add_of_le' hmn
      rw [Function.iterate_add_apply, hstuck.iterate] at hn
      omega
    · obtain ⟨k, rfl⟩ := Nat.exists_eq_add_of_le' hmn
      have := hlen k ((firsts fits)^[n] as)
      rw [Function.iterate_add_apply] at hlong
      omega
  · intro h
    induction hlen : as.length using Nat.strongRecOn generalizing as with
    | ind len ih =>
      by_cases hshort : as.length ≤ 1
      · exact ⟨0, hshort⟩
      · have hcrowded : ¬ Crowded fits as := fun hc => h 0 ⟨Nat.lt_of_not_le hshort, hc⟩
        obtain ⟨n, hn⟩ := ih _ (hlen ▸ length_firsts_lt hcrowded) (fun n => h (n + 1)) rfl
        exact ⟨n + 1, hn⟩

variable (fits)

/-- The rounds down to one element: how many levels they make, and how many elements stand on all
of the levels. -/
inductive Tower : List α → Nat → Nat → Prop
  | top {as : List α} (h : as.length ≤ 1) : Tower as 1 as.length
  | level {as : List α} {levels total : Nat} (h : 1 < as.length)
      (above : Tower (firsts fits as) levels total) : Tower as (levels + 1) (as.length + total)

variable {fits}

theorem Tower.unique {as : List α} {levels total levels' total' : Nat}
    (h : Tower fits as levels total) (h' : Tower fits as levels' total') :
    levels = levels' ∧ total = total' := by
  induction h generalizing levels' total' with
  | top h =>
    cases h' with
    | top => exact ⟨rfl, rfl⟩
    | level hlong => exact absurd hlong (not_lt.mpr h)
  | level h above ih =>
    cases h' with
    | top hshort => exact absurd h (not_lt.mpr hshort)
    | level _ above' =>
      obtain ⟨rfl, rfl⟩ := ih above'
      exact ⟨rfl, rfl⟩

theorem Tower.levels_pos {as : List α} {levels total : Nat} (h : Tower fits as levels total) :
    0 < levels := by
  cases h with
  | top _ => exact Nat.one_pos
  | level _ _ => exact Nat.succ_pos _

theorem Tower.exists_iterate {as : List α} {levels total : Nat} (h : Tower fits as levels total) :
    ∃ n, ((firsts fits)^[n] as).length ≤ 1 := by
  induction h with
  | top h => exact ⟨0, h⟩
  | level _ _ ih =>
    obtain ⟨n, hn⟩ := ih
    exact ⟨n + 1, hn⟩

/-- A first element that takes one of its large neighbours in each round. -/
theorem tower_cons_replicate {a b : α} (hpair : fits [a, b] = true)
    (hthree : fits [a, b, b] = false) (hlarge : fits [b, b] = false) (n : Nat) :
    ∃ total, Tower fits (a :: List.replicate n b) (n + 1) total ∧
      2 * total = (n + 1) * (n + 2) := by
  induction n with
  | zero => exact ⟨1, .top (Nat.le_refl 1), rfl⟩
  | succ n ih =>
    obtain ⟨total, habove, hsum⟩ := ih
    have hround : firsts fits (a :: List.replicate (n + 1) b) = a :: List.replicate n b := by
      rw [firsts_cons, List.replicate_succ, packFrom, List.singleton_append, if_pos hpair]
      cases n with
      | zero => rfl
      | succ n =>
        have hcrowded : Crowded fits (b :: List.replicate n b) := by
          rw [← List.replicate_succ]
          exact List.isChain_replicate_of_rel _ hlarge
        rw [List.replicate_succ, packFrom, List.cons_append, List.singleton_append, hthree,
          if_neg Bool.false_ne_true, packFrom_of_crowded hcrowded]
        have hsingles : ((b :: List.replicate n b).map fun b => [b]).filterMap List.head? =
            b :: List.replicate n b := by
          rw [List.filterMap_map]
          exact List.filterMap_some
        exact congrArg (a :: ·) hsingles
    refine ⟨_, .level (by simp) (hround ▸ habove), ?_⟩
    rw [List.length_cons, List.length_replicate]
    ring_nf at hsum ⊢
    omega

end Packing
