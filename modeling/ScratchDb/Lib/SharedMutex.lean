import Mathlib.Init
import Mathlib.Data.List.Basic

/-!
# A readers-writer mutex

A mutex that any number of holders can have in shared mode or one alone in
exclusive mode.
-/

/-- Who holds the mutex: the holders in shared mode, once for each time they took it, and the
one in exclusive mode. -/
structure SharedMutex (θ : Type) where
  readers : List θ := []
  writer : Option θ := none

namespace SharedMutex

variable {θ : Type} {m : SharedMutex θ} {t u : θ}

/-- Take it in shared mode, where no one has it in exclusive mode. -/
def lockShared (m : SharedMutex θ) (t : θ) : Option (SharedMutex θ) :=
  if m.writer = none then some { m with readers := t :: m.readers } else none

/-- Take it in exclusive mode, where no one has it. -/
def lock (m : SharedMutex θ) (t : θ) : Option (SharedMutex θ) :=
  if m.writer = none ∧ m.readers = [] then some { m with writer := some t } else none

/-- Give it back once from shared mode. -/
def unlockShared [DecidableEq θ] (m : SharedMutex θ) (t : θ) : SharedMutex θ :=
  { m with readers := m.readers.erase t }

/-- Give it back from exclusive mode. -/
def unlock (m : SharedMutex θ) : SharedMutex θ := { m with writer := none }

/-- `t` has it in some mode. -/
def HeldBy (m : SharedMutex θ) (t : θ) : Prop := t ∈ m.readers ∨ m.writer = some t

/-- Nobody has it. -/
def Free (m : SharedMutex θ) : Prop := m.readers = [] ∧ m.writer = none

/-- One holder in exclusive mode has it alone. -/
def Exclusive (m : SharedMutex θ) : Prop := m.writer ≠ none → m.readers = []

theorem Exclusive.eq_of_heldBy (h : m.Exclusive) (ht : m.writer = some t) (hu : m.HeldBy u) :
    u = t := by
  rcases hu with hu | hu
  · rw [h (by simp [ht])] at hu
    simp at hu
  · rw [ht, Option.some_inj] at hu
    exact hu.symm

theorem exclusive_empty : ({} : SharedMutex θ).Exclusive := fun _ => rfl

theorem lockShared_eq_some {m' : SharedMutex θ} :
    m.lockShared t = some m' ↔ m.writer = none ∧ m' = { m with readers := t :: m.readers } := by
  rw [lockShared]
  split <;> simp_all [eq_comm]

theorem lock_eq_some {m' : SharedMutex θ} :
    m.lock t = some m' ↔ m.Free ∧ m' = { m with writer := some t } := by
  rw [lock, Free, and_comm (a := m.readers = [])]
  split <;> simp_all [eq_comm]

theorem Exclusive.lockShared {m' : SharedMutex θ} (hl : m.lockShared t = some m') :
    m'.Exclusive := by
  obtain ⟨hw, rfl⟩ := lockShared_eq_some.1 hl
  intro h
  exact absurd hw h

theorem Exclusive.lock {m' : SharedMutex θ} (hl : m.lock t = some m') : m'.Exclusive := by
  obtain ⟨hf, rfl⟩ := lock_eq_some.1 hl
  intro _
  exact hf.1

theorem Exclusive.unlockShared [DecidableEq θ] (h : m.Exclusive) : (m.unlockShared t).Exclusive := by
  intro hw
  have hr : m.readers = [] := h hw
  simp [SharedMutex.unlockShared, hr]

theorem exclusive_unlock : m.unlock.Exclusive := fun h => absurd rfl h

/-- Giving it back from shared mode takes it from nobody else. -/
theorem heldBy_unlockShared [DecidableEq θ] (hne : u ≠ t) : (m.unlockShared t).HeldBy u ↔ m.HeldBy u := by
  simp only [HeldBy, unlockShared, List.mem_erase_of_ne hne]

end SharedMutex
