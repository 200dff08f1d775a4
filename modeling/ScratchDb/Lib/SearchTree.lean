import Mathlib.Data.List.Pairwise
import Mathlib.Order.Lattice

/-!
# Descending through separators

A search tree kept as pages: an inner page lists its children in order, each
under a separator, and a search goes to the last child whose separator is at
most the key. Layer after layer this reaches the last entry of the lowest
level whose separator is at most the key, whatever the number of layers and
however the layers are cut into pages.
-/

namespace SearchTree

variable {S P K : Type*} [LinearOrder K] (sep : S → K)

/-- The last of the children after `s` whose separators are at most `key`, or `s`. -/
def pickFrom (key : K) (s : S) : List S → S
  | [] => s
  | c :: cs => if sep c ≤ key then pickFrom key c cs else s

/-- `x` is the last of `level` whose separator is at most the key, or the first if there is none. -/
def Picks (key : K) (level : List S) (x : S) : Prop :=
  ∃ before after, level = before ++ x :: after ∧ (∀ c ∈ after, key < sep c) ∧
    (before ≠ [] → sep x ≤ key)

variable {sep} {key : K}

theorem picks_pickFrom (s : S) {cs : List S}
    (hsorted : (s :: cs).Pairwise fun a b => sep a ≤ sep b) :
    Picks sep key (s :: cs) (pickFrom sep key s cs) := by
  induction cs generalizing s with
  | nil => exact ⟨[], [], rfl, by simp, by simp⟩
  | cons c cs ih =>
    have hsorted' := (List.pairwise_cons.mp hsorted).2
    rw [pickFrom]
    split
    · rename_i hle
      obtain ⟨before, after, hlevel, hafter, hle'⟩ := ih c hsorted'
      refine ⟨s :: before, after, by rw [hlevel]; rfl, hafter, fun _ => ?_⟩
      by_cases hbefore : before = []
      · subst hbefore
        rw [List.nil_append] at hlevel
        rwa [← (List.cons.inj hlevel).1]
      · exact hle' hbefore
    · rename_i hlt
      refine ⟨[], c :: cs, rfl, fun d hd => ?_, by simp⟩
      rw [not_le] at hlt
      rcases List.mem_cons.mp hd with rfl | hd
      · exact hlt
      · exact lt_of_lt_of_le hlt ((List.pairwise_cons.mp hsorted').1 d hd)

/-- An inner page: what the layer above sees of it, and its children. -/
structure Group (S : Type*) where
  summary : S
  child : S
  children : List S

namespace Group

/-- All children of a page. -/
def all (g : Group S) : List S := g.child :: g.children

end Group

/-- Picking a page of a layer, and then a child of that page, picks among all the children. -/
theorem Picks.group {groups : List (Group S)} {g : Group S} {x : S}
    (hsep : ∀ g ∈ groups, sep g.summary = sep g.child)
    (hsorted : (groups.flatMap Group.all).Pairwise fun a b => sep a ≤ sep b)
    {before after : List (Group S)} (hsplit : groups = before ++ g :: after)
    (hafter : ∀ h ∈ after, key < sep h.summary) (hbefore : before ≠ [] → sep g.summary ≤ key)
    (hx : Picks sep key g.all x) : Picks sep key (groups.flatMap Group.all) x := by
  obtain ⟨before', after', hall, hafter', hbefore'⟩ := hx
  subst hsplit
  refine ⟨before.flatMap Group.all ++ before', after' ++ after.flatMap Group.all, ?_, ?_, ?_⟩
  · simp [List.flatMap_append, hall]
  · intro c hc
    rcases List.mem_append.mp hc with hc | hc
    · exact hafter' c hc
    -- a child of a later page is not below that page's first child
    obtain ⟨h, hh, hc⟩ := List.mem_flatMap.mp hc
    have hfirst : key < sep h.child := by
      rw [← hsep h (by simp [hh])]
      exact hafter h hh
    rw [List.flatMap_append, List.flatMap_cons, List.pairwise_append] at hsorted
    have hlater := (List.pairwise_append.mp hsorted.2.1).2.1
    have hown : h.all.Pairwise fun a b => sep a ≤ sep b :=
      (List.pairwise_flatMap.mp hlater).1 h hh
    rcases List.mem_cons.mp hc with rfl | hc
    · exact hfirst
    · exact lt_of_lt_of_le hfirst ((List.pairwise_cons.mp hown).1 c hc)
  · intro hne
    by_cases hempty : before' = []
    · -- `x` is the first child of its page
      subst hempty
      have hfirst : g.child = x := (List.cons.inj hall).1
      rw [← hfirst, ← hsep g (by simp)]
      exact hbefore fun hnil => hne (by simp [hnil])
    · exact hbefore' hempty

variable (page : S → P) (node : P → Option (S × List S))

/-- The pages of `level` are reached from the page `root` through `n` layers of inner pages. -/
inductive Layers (sep : S → K) : Nat → List S → P → Prop
  | root (s : S) : Layers sep 0 [s] (page s)
  | layer {n : Nat} {groups : List (Group S)} {root : P}
      (hsep : ∀ g ∈ groups, sep g.summary = sep g.child)
      (hnode : ∀ g ∈ groups, node (page g.summary) = some (g.child, g.children))
      (above : Layers sep n (groups.map Group.summary) root) :
      Layers sep (n + 1) (groups.flatMap Group.all) root

/-- The descent from the page `p` through `n` layers. -/
def descend (sep : S → K) (key : K) : Nat → P → Option P
  | 0, p => some p
  | n + 1, p => (descend sep key n p).bind fun q =>
      (node q).map fun c => page (pickFrom sep key c.1 c.2)

variable {page node}

/-- The first of the children of a layer's pages stand in order when all children do. -/
theorem pairwise_summaries {groups : List (Group S)}
    (hsep : ∀ g ∈ groups, sep g.summary = sep g.child)
    (hsorted : (groups.flatMap Group.all).Pairwise fun a b => sep a ≤ sep b) :
    (groups.map Group.summary).Pairwise fun a b => sep a ≤ sep b := by
  rw [List.pairwise_map]
  refine (List.pairwise_flatMap.mp hsorted).2.imp_of_mem fun {g h} hg hh hgh => ?_
  rw [hsep g hg, hsep h hh]
  exact hgh _ (List.mem_cons_self ..) _ (List.mem_cons_self ..)

omit [LinearOrder K] in
theorem Layers.mono {node' : P → Option (S × List S)} {n : Nat} {level : List S} {root : P}
    (h : Layers page node sep n level root)
    (hsame : ∀ p c, node p = some c → node' p = some c) : Layers page node' sep n level root := by
  induction h with
  | root s => exact .root s
  | layer hsep hnode _ ih => exact .layer hsep (fun g hg => hsame _ _ (hnode g hg)) ih

omit [LinearOrder K] in
/-- The root is a page of the lowest level or an inner page. -/
theorem Layers.root_of {n : Nat} {level : List S} {root : P} {Q : P → Prop}
    (h : Layers page node sep n level root) (hlevel : ∀ s ∈ level, Q (page s))
    (hinner : ∀ p c, node p = some c → Q p) : Q root := by
  induction h with
  | root s => exact hlevel s (List.mem_singleton_self s)
  | layer hsep hnode _ ih =>
    refine ih fun s hs => ?_
    obtain ⟨g, hg, rfl⟩ := List.mem_map.mp hs
    exact hinner _ _ (hnode g hg)

/-- The descent ends at the last entry of the lowest level that is at most the key. -/
theorem Layers.descend_eq {n : Nat} {level : List S} {root : P}
    (h : Layers page node sep n level root)
    (hsorted : level.Pairwise fun a b => sep a ≤ sep b) (key : K) :
    ∃ x, Picks sep key level x ∧ descend page node sep key n root = some (page x) := by
  induction h with
  | root s => exact ⟨s, ⟨[], [], rfl, by simp, by simp⟩, rfl⟩
  | @layer n groups root hsep hnode _ ih =>
    obtain ⟨u, ⟨before, after, hsplit, hafter, hbefore⟩, hdescend⟩ :=
      ih (pairwise_summaries hsep hsorted)
    -- the page picked in the layer above
    obtain ⟨gs, gs', rfl, rfl, hrest⟩ := List.map_eq_append_iff.mp hsplit
    obtain ⟨g, gs'', rfl, rfl, rfl⟩ := List.map_eq_cons_iff.mp hrest
    have hg : g ∈ gs ++ g :: gs'' := by simp
    have hown : g.all.Pairwise fun a b => sep a ≤ sep b :=
      (List.pairwise_flatMap.mp hsorted).1 g hg
    refine ⟨pickFrom sep key g.child g.children, ?_, ?_⟩
    · refine Picks.group hsep hsorted rfl (fun h hh => ?_) (fun hne => ?_) (picks_pickFrom _ hown)
      · exact hafter _ (List.mem_map_of_mem hh)
      · exact hbefore (by simpa using hne)
    · rw [descend, hdescend, Option.bind_some, hnode g hg, Option.map_some]

/-! ## Keys in several leaves -/

variable {E : Type*} (key : E → K)

/-- One leaf at most has entries of the key `k`. -/
def InOneLeaf (k : K) (leaves : List (List E)) : Prop :=
  leaves.Pairwise fun a b => ¬((∃ e ∈ a, key e = k) ∧ ∃ e ∈ b, key e = k)

instance (k : K) (leaves : List (List E)) : Decidable (InOneLeaf key k leaves) :=
  inferInstanceAs (Decidable (leaves.Pairwise _))

variable {key} {k : K}

/-- A search that starts at the last leaf whose first key is at most `k` passes over entries of `k`
exactly when several leaves have them. -/
theorem inOneLeaf_iff {before after : List (List E)} {cur : List E}
    (hsorted : (before ++ cur :: after).flatten.Pairwise fun a b => key a ≤ key b)
    (hafter : ∀ leaf ∈ after, ∀ e ∈ leaf, k < key e)
    (hbefore : before ≠ [] → ∃ e ∈ cur, key e ≤ k) :
    InOneLeaf key k (before ++ cur :: after) ↔ ∀ leaf ∈ before, ∀ e ∈ leaf, key e ≠ k := by
  constructor
  · intro hone leaf hleaf e he heq
    -- the start leaf has the key too, between this entry and its own first one
    obtain ⟨d, hd, hle⟩ := hbefore (List.ne_nil_of_mem hleaf)
    have hge : k ≤ key d := by
      rw [List.pairwise_flatten] at hsorted
      have hcross := (List.pairwise_append.mp hsorted.2).2.2 leaf hleaf cur
        (List.mem_cons_self ..) e he d hd
      rwa [heq] at hcross
    exact (List.pairwise_append.mp hone).2.2 leaf hleaf cur (List.mem_cons_self ..)
      ⟨⟨e, he, heq⟩, d, hd, le_antisymm hle hge⟩
  · intro hnone
    have hlater : ∀ leaf ∈ after, ¬∃ e ∈ leaf, key e = k := by
      rintro leaf hleaf ⟨e, he, heq⟩
      exact absurd heq (ne_of_gt (hafter leaf hleaf e he))
    refine List.pairwise_append.mpr ⟨?_, List.pairwise_cons.mpr ⟨?_, ?_⟩, ?_⟩
    · refine List.pairwise_of_forall_mem_list fun a ha b _ hab => ?_
      obtain ⟨⟨e, he, heq⟩, -⟩ := hab
      exact hnone a ha e he heq
    · exact fun b hb hab => hlater b hb hab.2
    · exact List.pairwise_of_forall_mem_list fun a _ b hb hab => hlater b hb hab.2
    · rintro a ha b - ⟨⟨e, he, heq⟩, -⟩
      exact hnone a ha e he heq

end SearchTree
