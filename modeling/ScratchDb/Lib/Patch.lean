import Mathlib.Data.List.Basic

/-!
# Patches

A patch assigns values to some keys of a state and leaves the others alone.
A list of patches is applied from its head on, so the last one that assigns a
key decides it. Each patch may carry a precondition; a list is playable when
every precondition holds where it is reached.
-/

/-- Values for some of the keys. -/
def Patch (K V : Type) : Type := K → Option V

namespace Patch

variable {K V : Type}

/-- The patch that assigns nothing. -/
def skip : Patch K V := fun _ => none

def apply (p : Patch K V) (s : K → V) : K → V := fun k => (p k).getD (s k)

def Covers (p : Patch K V) (k : K) : Prop := p k ≠ none

def applyAll : List (Patch K V) → (K → V) → K → V
  | [], s => s
  | p :: ps, s => applyAll ps (p.apply s)

/-- What the last patch that covers a key assigns to it. -/
def last : List (Patch K V) → Patch K V
  | [] => skip
  | p :: ps => fun k => (last ps k).or (p k)

@[simp] theorem skip_apply (s : K → V) : (skip : Patch K V).apply s = s := rfl

theorem apply_of_some {p : Patch K V} {k : K} {v : V} (h : p k = some v) (s : K → V) :
    p.apply s k = v := by
  simp [apply, h]

theorem apply_of_none {p : Patch K V} {k : K} (h : p k = none) (s : K → V) :
    p.apply s k = s k := by
  simp [apply, h]

theorem apply_congr {p : Patch K V} {s t : K → V} {k : K} (h : p k = none → s k = t k) :
    p.apply s k = p.apply t k := by
  rcases hp : p k with _ | v
  · simpa [apply, hp] using h hp
  · simp [apply, hp]

theorem applyAll_append (ps qs : List (Patch K V)) (s : K → V) :
    applyAll (ps ++ qs) s = applyAll qs (applyAll ps s) := by
  induction ps generalizing s with
  | nil => rfl
  | cons p ps ih => exact ih (p.apply s)

theorem applyAll_eq_last (ps : List (Patch K V)) (s : K → V) :
    applyAll ps s = (last ps).apply s := by
  induction ps generalizing s with
  | nil => rfl
  | cons p ps ih =>
      rw [applyAll, ih]
      funext k
      rcases hk : last ps k with _ | v
      · simp [apply, last, hk]
      · simp [apply, last, hk]

theorem last_append (ps qs : List (Patch K V)) (k : K) :
    last (ps ++ qs) k = (last qs k).or (last ps k) := by
  induction ps with
  | nil => simp [last, skip]
  | cons p ps ih => simp [last, ih, Option.or_assoc]

theorem last_singleton (p : Patch K V) : last [p] = p := by
  funext k
  simp [last, skip]

theorem last_concat (ps : List (Patch K V)) (p : Patch K V) (k : K) :
    last (ps ++ [p]) k = (p k).or (last ps k) := by
  rw [last_append, last_singleton]

theorem last_eq_none_iff {ps : List (Patch K V)} {k : K} :
    last ps k = none ↔ ∀ p ∈ ps, p k = none := by
  induction ps with
  | nil => simp [last, skip]
  | cons p ps ih => simp [last, ih, and_comm]

theorem last_mem {ps : List (Patch K V)} {k : K} {v : V} (h : last ps k = some v) :
    ∃ p ∈ ps, p k = some v := by
  induction ps with
  | nil => simp [last, skip] at h
  | cons p ps ih =>
      rcases Option.or_eq_some_iff.mp h with h | ⟨_, h⟩
      · obtain ⟨q, hq, hv⟩ := ih h
        exact ⟨q, List.mem_cons_of_mem _ hq, hv⟩
      · exact ⟨p, List.mem_cons_self, h⟩

/-- Patches that agree on a key wherever they cover it decide it together. -/
theorem last_eq_some_of_constant {ps : List (Patch K V)} {k : K} {v : V}
    (hmem : ∃ p ∈ ps, p k ≠ none) (hv : ∀ p ∈ ps, p k = none ∨ p k = some v) :
    last ps k = some v := by
  rcases h : last ps k with _ | u
  · obtain ⟨p, hp, hk⟩ := hmem
    exact absurd (last_eq_none_iff.mp h p hp) hk
  · obtain ⟨p, hp, hk⟩ := last_mem h
    rcases hv p hp with h0 | h0 <;> simp_all

/-- Two starting states that differ only where the patches assign end alike. -/
theorem applyAll_congr {ps : List (Patch K V)} {s t : K → V}
    (h : ∀ k, (∀ p ∈ ps, p k = none) → s k = t k) : applyAll ps s = applyAll ps t := by
  rw [applyAll_eq_last, applyAll_eq_last]
  funext k
  exact apply_congr fun hk => h k (last_eq_none_iff.mp hk)

/-! ## Patches with a precondition -/

/-- A patch that may be applied where `ready` holds. -/
structure Guarded (K V : Type) where
  ready : (K → V) → Prop
  patch : Patch K V

/-- Each patch of the list finds its precondition. -/
def Playable : List (Guarded K V) → (K → V) → Prop
  | [], _ => True
  | g :: gs, s => g.ready s ∧ Playable gs (g.patch.apply s)

/-- The state after the whole list. -/
def play (gs : List (Guarded K V)) (s : K → V) : K → V := applyAll (gs.map Guarded.patch) s

@[simp] theorem playable_nil (s : K → V) : Playable ([] : List (Guarded K V)) s := trivial

theorem playable_cons {g : Guarded K V} {gs : List (Guarded K V)} {s : K → V} :
    Playable (g :: gs) s ↔ g.ready s ∧ Playable gs (g.patch.apply s) := Iff.rfl

@[simp] theorem play_nil (s : K → V) : play ([] : List (Guarded K V)) s = s := rfl

theorem play_cons (g : Guarded K V) (gs : List (Guarded K V)) (s : K → V) :
    play (g :: gs) s = play gs (g.patch.apply s) := rfl

theorem play_append (gs hs : List (Guarded K V)) (s : K → V) :
    play (gs ++ hs) s = play hs (play gs s) := by
  simp [play, applyAll_append]

theorem playable_append {gs hs : List (Guarded K V)} {s : K → V} :
    Playable (gs ++ hs) s ↔ Playable gs s ∧ Playable hs (play gs s) := by
  induction gs generalizing s with
  | nil => simp
  | cons g gs ih => simp [playable_cons, play_cons, ih, and_assoc]

end Patch
