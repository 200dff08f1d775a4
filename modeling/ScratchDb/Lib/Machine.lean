import Mathlib.Init

/-!
# Machines that take one action at a time

A machine has a first state and a partial step function: an action that is
not enabled has no next state. The runs of a machine, the states they reach
under a condition on their steps, and the rules to prove what holds there.
-/

/-- A first state, and the state after an action where the action is enabled. -/
structure Machine (σ α : Type) where
  init : σ
  next : σ → α → Option σ

namespace Machine

variable {σ α : Type} {m : Machine σ α}

/-- The state after the actions of a list, where each is enabled in its turn. -/
def runFrom (m : Machine σ α) : σ → List α → Option σ
  | s, [] => some s
  | s, a :: as => (m.next s a).bind fun t => m.runFrom t as

/-- The state after a run. -/
def run (m : Machine σ α) (as : List α) : Option σ := m.runFrom m.init as

/-- The states that runs reach whose steps all meet `ok`. -/
inductive Reaches (m : Machine σ α) (ok : σ → α → Prop) : σ → Prop where
  | init : m.Reaches ok m.init
  | step {s t : σ} {a : α} : m.Reaches ok s → ok s a → m.next s a = some t → m.Reaches ok t

/-- The states that some run reaches. -/
def Reachable (m : Machine σ α) : σ → Prop := m.Reaches fun _ _ => True

/-- What holds of the first state and is kept by each step holds wherever a run leads. -/
theorem Reaches.invariant {ok : σ → α → Prop} {I : σ → Prop} (init : I m.init)
    (step : ∀ s t a, I s → ok s a → m.next s a = some t → I t) {s : σ} (h : m.Reaches ok s) :
    I s := by
  induction h with
  | init => exact init
  | step _ hok hnext ih => exact step _ _ _ ih hok hnext

theorem Reaches.mono {ok ok' : σ → α → Prop} (hok : ∀ s a, ok s a → ok' s a) {s : σ}
    (h : m.Reaches ok s) : m.Reaches ok' s := by
  induction h with
  | init => exact .init
  | step _ h hnext ih => exact ih.step (hok _ _ h) hnext

theorem Reaches.runFrom {ok : σ → α → Prop} {s t : σ} {as : List α} (h : m.Reaches ok s)
    (hok : ∀ s a, a ∈ as → ok s a) (hrun : m.runFrom s as = some t) : m.Reaches ok t := by
  induction as generalizing s with
  | nil =>
    rw [Machine.runFrom, Option.some_inj] at hrun
    exact hrun ▸ h
  | cons a as ih =>
    rw [Machine.runFrom, Option.bind_eq_some_iff] at hrun
    obtain ⟨u, hu, hrun⟩ := hrun
    exact ih (h.step (hok _ _ List.mem_cons_self) hu)
      (fun s b hb => hok s b (List.mem_cons_of_mem a hb)) hrun

/-- The state after a run is reachable. -/
theorem reachable_of_run {s : σ} {as : List α} (h : m.run as = some s) : m.Reachable s :=
  Reaches.init.runFrom (fun _ _ _ => trivial) h

/-- The state after a run whose steps all meet `ok`. -/
def runWhile (m : Machine σ α) (ok : σ → α → Prop) [∀ s a, Decidable (ok s a)] :
    σ → List α → Option σ
  | s, [] => some s
  | s, a :: as => if ok s a then (m.next s a).bind fun t => m.runWhile ok t as else none

theorem Reaches.runWhile {ok : σ → α → Prop} [∀ s a, Decidable (ok s a)] {s t : σ} {l : List α}
    (h : m.Reaches ok s) (hrun : m.runWhile ok s l = some t) : m.Reaches ok t := by
  induction l generalizing s with
  | nil =>
    rw [Machine.runWhile, Option.some_inj] at hrun
    exact hrun ▸ h
  | cons a as ih =>
    rw [Machine.runWhile, Option.ite_none_right_eq_some, Option.bind_eq_some_iff] at hrun
    obtain ⟨hok, u, hu, hrun⟩ := hrun
    exact ih (h.step hok hu) hrun

theorem runFrom_of_runWhile {ok : σ → α → Prop} [∀ s a, Decidable (ok s a)] {s t : σ}
    {as : List α} (h : m.runWhile ok s as = some t) : m.runFrom s as = some t := by
  induction as generalizing s with
  | nil => exact h
  | cons a as ih =>
    rw [runWhile, Option.ite_none_right_eq_some, Option.bind_eq_some_iff] at h
    obtain ⟨-, u, hu, h⟩ := h
    rw [runFrom, hu]
    exact ih h

end Machine
