import Mathlib.Data.Set.Finite.Basic
import Mathlib.Logic.Relation
import Mathlib.Order.RelClasses

/-!
# Walks along links

Following a partial link function until it ends. On finitely many places a
walk ends exactly if it meets no circle, and then it meets each place once.
-/

namespace Walk

variable {α : Type*} (next : α → Option α)

/-- There is a link from `a` to `b`. -/
def Follows (a b : α) : Prop := next a = some b

/-- The places met from `a` on, if the walk ends after `fuel` places or fewer. -/
def path : Nat → α → Option (List α)
  | 0, _ => none
  | fuel + 1, a =>
    match next a with
    | none => some [a]
    | some b => (path fuel b).map (a :: ·)

/-- The walk from `a` ends. -/
def Ends (a : α) : Prop := ∃ fuel places, path next fuel a = some places

/-- A walk from `a` leads to a place that leads back to itself. -/
def Circular (a : α) : Prop :=
  ∃ b, Relation.ReflTransGen (Follows next) a b ∧ Relation.TransGen (Follows next) b b

variable {next} {a b : α}

theorem path_of_none (h : next a = none) (fuel : Nat) : path next (fuel + 1) a = some [a] := by
  rw [path, h]

theorem path_of_some (h : next a = some b) (fuel : Nat) :
    path next (fuel + 1) a = (path next fuel b).map (a :: ·) := by
  rw [path, h]

/-- A place where the walk ends is not on a circle, nor is any before it. -/
theorem not_transGen_of_ends (h : Ends next a) : ¬ Relation.TransGen (Follows next) a a := by
  obtain ⟨fuel, places, hpath⟩ := h
  induction fuel generalizing a places with
  | zero => cases hpath
  | succ fuel ih =>
    intro hcircle
    obtain ⟨b, hab, hba⟩ := Relation.TransGen.head'_iff.mp hcircle
    rw [path_of_some hab, Option.map_eq_some_iff] at hpath
    obtain ⟨rest, hrest, -⟩ := hpath
    exact ih rest hrest (Relation.TransGen.tail' hba hab)

theorem Ends.of_reflTransGen (h : Ends next a)
    (hab : Relation.ReflTransGen (Follows next) a b) : Ends next b := by
  induction hab using Relation.ReflTransGen.head_induction_on with
  | refl => exact h
  | head hac _ ih =>
    refine ih ?_
    obtain ⟨fuel, places, hpath⟩ := h
    cases fuel with
    | zero => cases hpath
    | succ fuel =>
      rw [path_of_some hac, Option.map_eq_some_iff] at hpath
      obtain ⟨rest, hrest, -⟩ := hpath
      exact ⟨fuel, rest, hrest⟩

theorem reflTransGen_of_mem {fuel : Nat} {places : List α} (h : path next fuel a = some places)
    (hb : b ∈ places) : Relation.ReflTransGen (Follows next) a b := by
  induction fuel generalizing a places with
  | zero => cases h
  | succ fuel ih =>
    cases hnext : next a with
    | none =>
      rw [path_of_none hnext, Option.some_inj] at h
      subst h
      rw [List.mem_singleton.mp hb]
    | some c =>
      rw [path_of_some hnext, Option.map_eq_some_iff] at h
      obtain ⟨rest, hrest, rfl⟩ := h
      rcases List.mem_cons.mp hb with rfl | hb
      · exact .refl
      · exact .head hnext (ih hrest hb)

/-- A walk that ends meets each place once. -/
theorem nodup_of_path {fuel : Nat} {places : List α} (h : path next fuel a = some places) :
    places.Nodup := by
  induction fuel generalizing a places with
  | zero => cases h
  | succ fuel ih =>
    have hends : Ends next a := ⟨fuel + 1, places, h⟩
    cases hnext : next a with
    | none =>
      rw [path_of_none hnext, Option.some_inj] at h
      rw [← h]
      exact List.nodup_singleton a
    | some b =>
      rw [path_of_some hnext, Option.map_eq_some_iff] at h
      obtain ⟨rest, hrest, rfl⟩ := h
      refine List.nodup_cons.mpr ⟨fun ha => ?_, ih hrest⟩
      exact not_transGen_of_ends hends (.head' hnext (reflTransGen_of_mem hrest ha))

variable (next) in
/-- The places that the walk from `a` leads to. -/
def Reached (a : α) : Set α := {b | Relation.ReflTransGen (Follows next) a b}

theorem ends_of_not_circular (hfinite : (Reached next a).Finite) (h : ¬ Circular next a) :
    Ends next a := by
  have hreached : Finite (Reached next a) := hfinite
  let back (q p : Reached next a) : Prop := Follows next p q
  have hirrefl : Std.Irrefl (Relation.TransGen back) := by
    refine ⟨fun p hp => h ⟨p, p.2, ?_⟩⟩
    have hforth := Relation.transGen_swap.mp hp
    exact hforth.lift Subtype.val fun q p hqp => hqp
  have hwf : WellFounded (Relation.TransGen back) := Finite.wellFounded_of_trans_of_irrefl _
  -- induction over the places from the end of the walk
  have hends : ∀ p : Reached next a, Ends next p.1 := by
    intro p
    induction p using hwf.induction with
    | _ p ih =>
      cases hnext : next p.1 with
      | none => exact ⟨1, [p.1], path_of_none hnext 0⟩
      | some b =>
        obtain ⟨fuel, places, hpath⟩ := ih ⟨b, p.2.tail hnext⟩ (.single hnext)
        exact ⟨fuel + 1, p.1 :: places, by rw [path_of_some hnext, hpath]; rfl⟩
  exact hends ⟨a, .refl⟩

/-- On finitely many places a walk ends exactly if it meets no circle. -/
theorem ends_iff (hfinite : (Reached next a).Finite) : Ends next a ↔ ¬ Circular next a := by
  constructor
  · rintro h ⟨b, hab, hb⟩
    exact not_transGen_of_ends (h.of_reflTransGen hab) hb
  · exact ends_of_not_circular hfinite

/-- Links that all lead below a bound reach finitely many places. -/
theorem finite_reached {next : Nat → Option Nat} {bound a : Nat}
    (h : ∀ p q, next p = some q → q < bound) : (Reached next a).Finite := by
  refine ((Set.finite_lt_nat bound).insert a).subset fun b hb => ?_
  cases hb with
  | refl => exact Set.mem_insert a _
  | tail _ hlink => exact Set.mem_insert_of_mem a (h _ b hlink)

end Walk
