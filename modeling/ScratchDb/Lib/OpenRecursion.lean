import Mathlib.Init

/-!
# Recursion with fuel

A recursive program is given by its step, which receives the function it calls.
A relation between outcomes that is kept by sequencing carries over from the
calls of a step to its outcome, and from there, by induction on the fuel, to
whole runs: runs with more fuel agree, runs of bounded nesting end, and a
program that keeps calling itself does not.
-/

namespace OpenRecursion

/-- Why there is no result. -/
inductive Stop where
  | exception
  | outOfFuel
deriving DecidableEq

abbrev Run (α : Type) := Except Stop α

/-- Neither an exception nor out of fuel, or an exception. -/
def Run.Ends {α : Type} (x : Run α) : Prop := x ≠ .error .outOfFuel

/-- What is returned satisfies `P`. -/
def Run.Yields {α : Type} (P : α → Prop) (x : Run α) : Prop := ∀ a, x = .ok a → P a

theorem Run.Yields.bind {α β : Type} {P : α → Prop} {Q : β → Prop} {x : Run α} {f : α → Run β}
    (hx : x.Yields P) (hf : ∀ a, P a → (f a).Yields Q) : (x >>= f).Yields Q := by
  cases x with
  | error e =>
    intro b hb
    cases hb
  | ok a => exact hf a (hx a rfl)

/-- Relations between outcomes that sequencing keeps. -/
structure Congruence (R : ∀ {α : Type}, Run α → Run α → Prop) : Prop where
  ok : ∀ {α : Type} (a : α), R (.ok a) (.ok a)
  exception : ∀ {α : Type}, R (.error .exception : Run α) (.error .exception)
  bind : ∀ {α β : Type} {x y : Run α} {f g : α → Run β}, R x y → (∀ a, R (f a) (g a)) →
    R (x >>= f) (y >>= g)

/-- The second run may go on where the first has no more fuel. -/
def Approx {α : Type} (x y : Run α) : Prop := x = .error .outOfFuel ∨ x = y

theorem congruence_eq : Congruence fun x y => x = y where
  ok _ := rfl
  exception := rfl
  bind := by
    intro α β x y f g hx hf
    rw [hx, funext hf]

theorem congruence_approx : Congruence Approx where
  ok _ := .inr rfl
  exception := .inr rfl
  bind := by
    intro α β x y f g hx hf
    rcases hx with rfl | rfl
    · exact .inl rfl
    · cases x with
      | error e => exact .inr rfl
      | ok a => exact hf a

theorem congruence_ends : Congruence fun x _ => Run.Ends x where
  ok _ := by
    intro h
    cases h
  exception := by
    intro α h
    cases h
  bind := by
    intro α β x y f g hx hf
    cases x with
    | error e => exact fun h => hx (congrArg Except.error (Except.error.inj h))
    | ok a => exact hf a

variable {R : ∀ {α : Type}, Run α → Run α → Prop}

/-- An outcome that calls nothing is related to itself. -/
theorem Congruence.refl {α : Type} (h : Congruence R) {x : Run α} (hx : x.Ends) : R x x := by
  cases x with
  | ok a => exact h.ok a
  | error e =>
    cases e with
    | exception => exact h.exception
    | outOfFuel => exact absurd rfl hx

/-! ## Iterating a step -/

section Iterate

variable {ι α : Type} (step : (ι → Run α) → ι → Run α)

def iterate : Nat → ι → Run α
  | 0, _ => .error .outOfFuel
  | fuel + 1, i => step (iterate fuel) i

variable {step}

/-- More fuel gives the same outcome. -/
theorem iterate_mono
    (h : ∀ f g, (∀ i, Approx (f i) (g i)) → ∀ i, Approx (step f i) (step g i)) (n k : Nat) (i : ι) :
    Approx (iterate step n i) (iterate step (n + k) i) := by
  induction n generalizing i with
  | zero => exact .inl rfl
  | succ n ih =>
    rw [Nat.succ_add]
    exact h _ _ ih i

/-- `i` returns `a` for some fuel. -/
def Returns (step : (ι → Run α) → ι → Run α) (i : ι) (a : α) : Prop :=
  ∃ fuel, iterate step fuel i = .ok a

theorem Returns.unique
    (h : ∀ f g, (∀ i, Approx (f i) (g i)) → ∀ i, Approx (step f i) (step g i)) {i : ι} {a b : α}
    (ha : Returns step i a) (hb : Returns step i b) : a = b := by
  obtain ⟨n, ha⟩ := ha
  obtain ⟨m, hb⟩ := hb
  have hn := iterate_mono h n m i
  have hm := iterate_mono h m n i
  rw [ha] at hn
  rw [hb, Nat.add_comm] at hm
  have hok := (hn.resolve_left (by simp)).trans (hm.resolve_left (by simp)).symm
  cases hok
  rfl

/-- Calls that nest less than `n` deep end with fuel `n`. -/
theorem ends_of_nesting (bounded : Nat → ι → Prop) (hzero : ∀ i, ¬ bounded 0 i)
    (h : ∀ n f i, bounded (n + 1) i → (∀ j, bounded n j → (f j).Ends) → (step f i).Ends) (n : Nat)
    {i : ι} (hi : bounded n i) : (iterate step n i).Ends := by
  induction n generalizing i with
  | zero => exact absurd hi (hzero i)
  | succ n ih => exact h n _ i hi fun j hj => ih hj

/-- What always makes a call of its own kind never ends. -/
theorem outOfFuel_of_calls (endless : ι → Prop)
    (h : ∀ f i, endless i → (∀ j, endless j → f j = .error .outOfFuel) →
      step f i = .error .outOfFuel) (fuel : Nat) {i : ι} (hi : endless i) :
    iterate step fuel i = .error .outOfFuel := by
  induction fuel generalizing i with
  | zero => rfl
  | succ n ih => exact h _ i hi fun j hj => ih hj

/-- What every step returns, where its calls return the like, every run returns. -/
theorem iterate_yields {P : α → Prop}
    (h : ∀ f, (∀ i, (f i).Yields P) → ∀ i, (step f i).Yields P) (fuel : Nat) (i : ι) :
    (iterate step fuel i).Yields P := by
  induction fuel generalizing i with
  | zero =>
    intro a ha
    cases ha
  | succ n ih => exact h _ ih i

/-- Two steps that agree on a kind of calls they both stay in agree there. -/
theorem iterate_congr {step' : (ι → Run α) → ι → Run α} (kind : ι → Prop)
    (h : ∀ f g i, kind i → (∀ j, kind j → f j = g j) → step f i = step' g i) (fuel : Nat) {i : ι}
    (hi : kind i) : iterate step fuel i = iterate step' fuel i := by
  induction fuel generalizing i with
  | zero => rfl
  | succ n ih => exact h _ _ i hi fun j hj => ih hj

end Iterate

end OpenRecursion
