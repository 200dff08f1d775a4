import Mathlib.Algebra.BigOperators.Group.Finset.Basic
import Mathlib.Data.List.Induction
import Mathlib.Tactic.Ring

/-!
# Groups in the order of their first elements

The groups of a list under a key, against an accumulator that looks up each
element's key and appends. `groups` is the meaning, `add` the step of the loop.
-/

namespace Grouping

variable {A K L : Type*}

section Groups

variable [DecidableEq K] (key : A → K)

/-- The keys of a list, each where it occurs first. -/
def firstKeys (as : List A) : List K := (as.map key).eraseDups

/-- The elements with a key, in their order. -/
def members (as : List A) (k : K) : List A := as.filter fun a => key a = k

def groups (as : List A) : List (K × List A) := (firstKeys key as).map fun k => (k, members key as k)

/-- Appends an element to the group of its key, or opens a new group at the end. -/
def add (k : K) (a : A) : List (K × List A) → List (K × List A)
  | [] => [(k, [a])]
  | g :: gs => if g.1 = k then (g.1, g.2 ++ [a]) :: gs else g :: add k a gs

variable {key} {as : List A} {a : A} {k : K}

theorem mem_firstKeys : k ∈ firstKeys key as ↔ ∃ a ∈ as, key a = k := by
  rw [firstKeys, List.mem_eraseDups, List.mem_map]

theorem nodup_eraseDups {B : Type*} [BEq B] [LawfulBEq B] (ks : List B) : ks.eraseDups.Nodup := by
  -- the tail that the recursion keeps is shorter than the list
  induction hn : ks.length using Nat.strongRecOn generalizing ks with
  | _ n ih =>
    cases ks with
    | nil => exact List.nodup_nil
    | cons k ks =>
      rw [List.eraseDups_cons]
      have hlength := List.length_filter_le (fun b => !b == k) ks
      rw [List.length_cons] at hn
      refine List.nodup_cons.mpr ⟨fun hk => ?_, ih _ (by omega) _ rfl⟩
      rw [List.mem_eraseDups, List.mem_filter] at hk
      simp at hk

theorem eraseDups_map [DecidableEq L] {code : K → L} (hinj : Function.Injective code)
    (ks : List K) : (ks.map code).eraseDups = ks.eraseDups.map code := by
  induction hn : ks.length using Nat.strongRecOn generalizing ks with
  | _ n ih =>
    cases ks with
    | nil => rfl
    | cons k ks =>
      have hlength := List.length_filter_le (fun b => !b == k) ks
      rw [List.length_cons] at hn
      rw [List.map_cons, List.eraseDups_cons, List.filter_map, List.eraseDups_cons, List.map_cons,
        ← ih _ (by omega) _ rfl]
      have hsame : ((fun b => !b == code k) ∘ code) = fun b : K => !b == k := by
        funext b
        show (!code b == code k) = !b == k
        rw [Bool.eq_iff_iff, Bool.not_eq_true', Bool.not_eq_true', beq_eq_false_iff_ne,
          beq_eq_false_iff_ne]
        exact hinj.ne_iff
      rw [hsame]

theorem nodup_firstKeys : (firstKeys key as).Nodup := nodup_eraseDups _

theorem firstKeys_append_one :
    firstKeys key (as ++ [a]) =
      if key a ∈ firstKeys key as then firstKeys key as else firstKeys key as ++ [key a] := by
  have happend : firstKeys key (as ++ [a]) =
      firstKeys key as ++ (([key a] : List K).removeAll (as.map key)).eraseDups := by
    rw [firstKeys, List.map_append, List.eraseDups_append]
    rfl
  rw [happend]
  by_cases h : key a ∈ firstKeys key as
  · have hmem : key a ∈ as.map key := List.mem_eraseDups.mp h
    have hnone : ([key a] : List K).removeAll (as.map key) = [] := by
      simpa [List.removeAll] using hmem
    rw [if_pos h, hnone]
    exact List.append_nil _
  · have hmem : key a ∉ as.map key := fun hk => h (List.mem_eraseDups.mpr hk)
    have hone : ([key a] : List K).removeAll (as.map key) = [key a] := by
      simpa [List.removeAll] using hmem
    rw [if_neg h, hone]
    rfl

theorem members_append_one :
    members key (as ++ [a]) k = if key a = k then members key as k ++ [a] else members key as k := by
  rw [members, List.filter_append]
  by_cases h : key a = k
  · rw [if_pos h, List.filter_cons, if_pos (decide_eq_true h)]
    rfl
  · rw [if_neg h, List.filter_cons, if_neg (by rw [decide_eq_true_eq]; exact h), List.filter_nil,
      List.append_nil]
    rfl

theorem members_eq_nil (h : k ∉ firstKeys key as) : members key as k = [] := by
  refine List.filter_eq_nil_iff.mpr fun b hb heq => h (mem_firstKeys.mpr ⟨b, hb, ?_⟩)
  exact of_decide_eq_true heq

/-- The loop's step on groups that are listed by their keys. -/
theorem add_map {ks : List K} {f : K → List A} (hnodup : ks.Nodup) :
    add k a (ks.map fun i => (i, f i)) =
      if k ∈ ks then ks.map fun i => (i, if k = i then f i ++ [a] else f i)
      else (ks.map fun i => (i, f i)) ++ [(k, [a])] := by
  induction ks with
  | nil =>
    rw [if_neg List.not_mem_nil]
    rfl
  | cons i ks ih =>
    obtain ⟨hi, hks⟩ := List.nodup_cons.mp hnodup
    rw [List.map_cons, add]
    by_cases h : i = k
    · -- no later group has the key again
      subst h
      rw [if_pos rfl, if_pos List.mem_cons_self, List.map_cons, if_pos rfl]
      refine congrArg _ (List.map_congr_left fun j hj => ?_)
      rw [if_neg fun hij => hi (by rw [hij]; exact hj)]
    · rw [if_neg h, ih hks]
      by_cases hk : k ∈ ks
      · rw [if_pos hk, if_pos (List.mem_cons_of_mem i hk), List.map_cons, if_neg (Ne.symm h)]
      · have hnot : k ∉ i :: ks := by
          intro hmem
          rcases List.mem_cons.mp hmem with heq | hmem
          · exact h heq.symm
          · exact hk hmem
        rw [if_neg hk, if_neg hnot]
        rfl

theorem add_groups : add (key a) a (groups key as) = groups key (as ++ [a]) := by
  rw [groups, add_map nodup_firstKeys, groups, firstKeys_append_one]
  by_cases h : key a ∈ firstKeys key as
  · rw [if_pos h, if_pos h]
    exact List.map_congr_left fun k _ => by rw [members_append_one]
  · rw [if_neg h, if_neg h, List.map_append, List.map_singleton, members_append_one, if_pos rfl,
      members_eq_nil h]
    refine congrArg (· ++ _) (List.map_congr_left fun k hk => ?_)
    rw [members_append_one, if_neg fun heq => h (by rw [heq]; exact hk)]

/-- The loop over a list builds its groups. -/
theorem foldl_add (as : List A) :
    as.foldl (fun gs a => add (key a) a gs) [] = groups key as := by
  induction as using List.reverseRecOn with
  | nil => rfl
  | append_singleton as a ih =>
    rw [List.foldl_append, ih]
    exact add_groups

/-! ## What groups are -/

theorem members_ne_nil (h : k ∈ firstKeys key as) : members key as k ≠ [] := by
  obtain ⟨a, ha, hk⟩ := mem_firstKeys.mp h
  exact List.ne_nil_of_mem (List.mem_filter.mpr ⟨ha, decide_eq_true hk⟩)

theorem head?_groups :
    (groups key as).head? = as.head?.map fun a => (key a, members key as (key a)) := by
  cases as with
  | nil => rfl
  | cons a as =>
    rw [groups, firstKeys, List.map_cons, List.eraseDups_cons]
    rfl

theorem mem_members : a ∈ members key as k ↔ a ∈ as ∧ key a = k := by
  rw [members, List.mem_filter, decide_eq_true_eq]

theorem length_members : (members key as k).length = (as.map key).count k := by
  rw [members, ← List.countP_eq_length_filter, List.count, List.countP_map]
  refine List.countP_congr fun b _ => ?_
  simp only [Function.comp, decide_eq_true_eq, beq_iff_eq]

/-- Every element is in exactly one group. -/
theorem sum_length_members :
    ((firstKeys key as).map fun k => (members key as k).length).sum = as.length := by
  have hperm : (firstKeys key as).Perm (as.map key).dedup :=
    (List.perm_ext_iff_of_nodup nodup_firstKeys (List.nodup_dedup _)).mpr fun k => by
      rw [List.mem_dedup, firstKeys, List.mem_eraseDups]
  calc ((firstKeys key as).map fun k => (members key as k).length).sum
      = ((firstKeys key as).map fun k => (as.map key).count k).sum := by
        simp only [length_members]
    _ = (((as.map key).dedup).map fun k => (as.map key).count k).sum := (hperm.map _).sum_eq
    _ = (as.map key).length := List.sum_map_count_dedup_eq_length _
    _ = as.length := List.length_map _

/-- An injective code of the keys gives the same groups. -/
theorem groups_comp [DecidableEq L] {code : K → L} (hinj : Function.Injective code) :
    groups (code ∘ key) as = (groups key as).map fun g => (code g.1, g.2) := by
  have hkeys : firstKeys (code ∘ key) as = (firstKeys key as).map code := by
    rw [firstKeys, ← List.map_map]
    exact eraseDups_map hinj _
  rw [groups, hkeys, groups, List.map_map, List.map_map]
  refine List.map_congr_left fun k _ => ?_
  show (code k, _) = (code k, _)
  refine congrArg (Prod.mk _) (List.filter_congr fun a _ => ?_)
  exact decide_eq_decide.mpr hinj.eq_iff

end Groups

end Grouping
