import Mathlib.Data.Finset.Card
import ScratchDb.Concurrency.LockManager

/-!
# Mutexes, counts and locks belong together

The invariant of the lock manager that needs no discipline of its callers but
one: a thread releases only locks that it acquired itself, and nests fewer
than 2^16 of them. Every lock of a key then refers to the one mutex of the key,
and a thread's re-entrancy count is the number of its valid locks.
-/

set_option linter.unusedSectionVars false

namespace ScratchDb

namespace TableLock

variable {Thread : Type}

/-- A valid lock of `key` that thread `t` acquired. -/
def ValidFor (l : TableLock Thread) (t : Thread) (key : Bytes) : Prop :=
  l.ownsLock = true ∧ l.acquirer = some t ∧ l.tableKey = key

instance [DecidableEq Thread] (l : TableLock Thread) (t : Thread) (key : Bytes) :
    Decidable (l.ValidFor t key) :=
  inferInstanceAs (Decidable (_ ∧ _ ∧ _))

@[simp] theorem not_validFor_empty (t : Thread) (key : Bytes) :
    ¬ ({} : TableLock Thread).ValidFor t key := fun h => Bool.noConfusion h.1

/-- A valid lock of thread `t` that locked the mutex `id` in this mode. -/
def LockedMutex (l : TableLock Thread) (t : Thread) (id : Nat) (mode : TableLockMode) : Prop :=
  l.ownsLock = true ∧ l.lockedMutex = true ∧ l.acquirer = some t ∧ l.mutex = some id ∧
    l.mode = mode

instance [DecidableEq Thread] (l : TableLock Thread) (t : Thread) (id : Nat)
    (mode : TableLockMode) : Decidable (l.LockedMutex t id mode) :=
  inferInstanceAs (Decidable (_ ∧ _ ∧ _ ∧ _ ∧ _))

@[simp] theorem not_lockedMutex_empty (t : Thread) (id : Nat) (mode : TableLockMode) :
    ¬ ({} : TableLock Thread).LockedMutex t id mode := fun h => Bool.noConfusion h.1

end TableLock

namespace LockState

variable {Thread Slot : Type} [DecidableEq Thread] [DecidableEq Slot]
  {s : LockState Thread Slot} {t u : Thread} {v w : Slot} {key : Bytes}

/-! ## What the parts of a step change -/

@[simp] theorem heldCount_setHeld (t' : Thread) (key' : Bytes) (c : Option Nat) :
    (s.setHeld t key c).heldCount t' key' =
      if t' = t ∧ key' = key then c.getD 0 else s.heldCount t' key' := by
  rw [heldCount, setHeld, heldCount]
  by_cases ht : t' = t
  · subst ht
    by_cases hk : key' = key <;> simp [hk]
  · simp [ht]

@[simp] theorem heldCount_setMutex (id : Nat) (m : SharedMutex Thread) :
    (s.setMutex id m).heldCount t key = s.heldCount t key := rfl

@[simp] theorem heldCount_setLock (l : TableLock Thread) :
    (s.setLock v l).heldCount t key = s.heldCount t key := rfl

@[simp] theorem heldCount_setCall (c : Option (LockCall Slot)) :
    (s.setCall u c).heldCount t key = s.heldCount t key := rfl

/-! ## The variables whose locks have a property -/

/-- The slots whose locks satisfy `P`. -/
def slotsWith (s : LockState Thread Slot) (P : TableLock Thread → Prop) [DecidablePred P] :
    Finset Slot :=
  s.slots.filter fun v => P (s.locks v)

theorem mem_slotsWith {P : TableLock Thread → Prop} [DecidablePred P] :
    v ∈ s.slotsWith P ↔ v ∈ s.slots ∧ P (s.locks v) := Finset.mem_filter

theorem slotsWith_setLock (P : TableLock Thread → Prop) [DecidablePred P] (l : TableLock Thread) :
    (s.setLock v l).slotsWith P =
      if P l then insert v (s.slotsWith P) else (s.slotsWith P).erase v := by
  ext w
  by_cases hw : w = v
  · subst hw
    by_cases hP : P l <;> simp [mem_slotsWith, hP]
  · by_cases hP : P l <;> simp [mem_slotsWith, hP, hw]

/-- The slots with valid locks of `key` that thread `t` acquired. -/
def validSlots (s : LockState Thread Slot) (t : Thread) (key : Bytes) : Finset Slot :=
  s.slotsWith fun l => l.ValidFor t key

/-! ## The invariant -/

structure Sound (s : LockState Thread Slot) : Prop where
  slots : ∀ v, v ∉ s.slots → s.locks v = {}
  table : ∀ v id, (s.locks v).mutex = some id → s.tableLocks (s.locks v).tableKey = some id
  made : ∀ key id, s.tableLocks key = some id → id < s.mutexCount
  oneKey : ∀ key key' id, s.tableLocks key = some id → s.tableLocks key' = some id → key = key'
  owned : ∀ v, (s.locks v).ownsLock = true →
    (s.locks v).mutex ≠ none ∧ (s.locks v).acquirer ≠ none
  count : ∀ t key, s.heldCount t key = (s.validSlots t key).card
  bound : ∀ t key, s.heldCount t key < 2 ^ 16
  building : ∀ t c, s.calls t = some c → (s.locks c.slot).acquirer = some t ∧
    (s.locks c.slot).mutex ≠ none ∧ (s.locks c.slot).ownsLock = false

/-- A step that releases only what its thread acquired, and does not nest too deep. -/
def Disciplined (s : LockState Thread Slot) : Action Thread Slot → Prop
  | .enter t => ∀ c ∈ s.calls t, s.heldCount t (s.locks c.slot).tableKey + 1 < 2 ^ 16
  | .drop t v => (s.locks v).ownsLock = true → (s.locks v).acquirer = some t
  | .move t v w => v ≠ w → (s.locks w).ownsLock = true → (s.locks w).acquirer = some t
  | _ => True

instance (s : LockState Thread Slot) (a : Action Thread Slot) : Decidable (s.Disciplined a) :=
  match a with
  | .enter _ => by dsimp only [Disciplined]; infer_instance
  | .drop .. => by dsimp only [Disciplined]; infer_instance
  | .move .. => by dsimp only [Disciplined]; infer_instance
  | .request .. => isTrue trivial
  | .timeout _ => isTrue trivial

namespace Sound

theorem sound_empty : (empty : LockState Thread Slot).Sound where
  slots _ _ := rfl
  table _ _ h := by cases h
  made _ _ h := by cases h
  oneKey _ _ _ h := by cases h
  owned _ h := by cases h
  count _ _ := rfl
  bound _ _ := Nat.two_pow_pos 16
  building _ _ h := by cases h

/-- A valid lock is among those that its acquirer's count counts. -/
theorem mem_validSlots (hs : s.Sound) (h : (s.locks v).ValidFor t key) :
    v ∈ s.validSlots t key := by
  refine mem_slotsWith.2 ⟨?_, h⟩
  by_contra hv
  rw [hs.slots v hv] at h
  exact TableLock.not_validFor_empty t key h

/-- All locks of a key refer to one mutex. -/
theorem mutex_eq (hs : s.Sound) {id id' : Nat} (hv : (s.locks v).mutex = some id)
    (hw : (s.locks w).mutex = some id') (hk : (s.locks v).tableKey = (s.locks w).tableKey) :
    id = id' := by
  have h := hs.table v id hv
  rw [hk, hs.table w id' hw, Option.some_inj] at h
  exact h.symm

/-- Locks of one mutex are locks of one key. -/
theorem tableKey_eq (hs : s.Sound) {id : Nat} (hv : (s.locks v).mutex = some id)
    (hw : (s.locks w).mutex = some id) : (s.locks v).tableKey = (s.locks w).tableKey :=
  hs.oneKey _ _ id (hs.table v id hv) (hs.table w id hw)

theorem not_constructing (hs : s.Sound) (hv : ¬ s.Constructing v) {c : LockCall Slot}
    (hc : s.calls u = some c) : c.slot ≠ v := by
  rintro rfl
  apply hv
  rw [Constructing, (hs.building u c hc).1]
  simp [hc]

end Sound

/-! ## Releasing a lock -/

/-- What releasing `l`, by the thread that locked it, leaves of its mutex. -/
def givenBack (m : SharedMutex Thread) (t : Thread) : TableLockMode → SharedMutex Thread
  | .shared => m.unlockShared t
  | .exclusive => m.unlock

theorem unlockMutex_eq (id : Nat) (mode : TableLockMode) :
    s.unlockMutex t id mode = s.setMutex id (givenBack (s.mutexes id) t mode) := by
  cases mode <;> rfl

theorem unlock_of_not_owns {l : TableLock Thread} (h : l.ownsLock = false) : s.unlock t l = s := by
  rw [unlock, h]

/-- `unlock` changes counts and mutexes only. -/
theorem unlock_frame (l : TableLock Thread) :
    (s.unlock t l).locks = s.locks ∧ (s.unlock t l).slots = s.slots ∧
      (s.unlock t l).tableLocks = s.tableLocks ∧ (s.unlock t l).mutexCount = s.mutexCount ∧
      (s.unlock t l).calls = s.calls := by
  unfold unlock
  simp only [unlockMutex_eq]
  repeat' split
  all_goals exact ⟨rfl, rfl, rfl, rfl, rfl⟩

@[simp] theorem unlock_locks (l : TableLock Thread) : (s.unlock t l).locks = s.locks :=
  (unlock_frame l).1

@[simp] theorem unlock_slots (l : TableLock Thread) : (s.unlock t l).slots = s.slots :=
  (unlock_frame l).2.1

@[simp] theorem unlock_tableLocks (l : TableLock Thread) :
    (s.unlock t l).tableLocks = s.tableLocks := (unlock_frame l).2.2.1

@[simp] theorem unlock_mutexCount (l : TableLock Thread) :
    (s.unlock t l).mutexCount = s.mutexCount := (unlock_frame l).2.2.2.1

@[simp] theorem unlock_calls (l : TableLock Thread) : (s.unlock t l).calls = s.calls :=
  (unlock_frame l).2.2.2.2

namespace Sound

theorem heldCount_pos (hs : s.Sound) (hv : (s.locks v).ValidFor t key) :
    0 < s.heldCount t key := by
  rw [hs.count]
  exact Finset.card_pos.2 ⟨v, hs.mem_validSlots hv⟩

/-- A valid lock released by its acquirer: the count goes down, and where it becomes 0 a lock that
locked the mutex gives it back. -/
theorem unlock_eq (hs : s.Sound) (hv : (s.locks v).ValidFor t key) {id : Nat}
    (hid : (s.locks v).mutex = some id) :
    s.unlock t (s.locks v) =
      if s.heldCount t key = 1 then
        if (s.locks v).lockedMutex then
          (s.setHeld t key none).setMutex id (givenBack (s.mutexes id) t (s.locks v).mode)
        else s.setHeld t key none
      else s.setHeld t key (some (s.heldCount t key - 1)) := by
  have hpos := hs.heldCount_pos hv
  obtain ⟨howns, -, hkey⟩ := hv
  have hbound := hs.bound t key
  obtain ⟨n, hn⟩ : ∃ n, s.heldTableLocks t key = some n := by
    rw [← Option.isSome_iff_exists, Option.isSome_iff_ne_none]
    intro hnone
    simp [heldCount, hnone] at hpos
  have hcount : s.heldCount t key = n := by simp [heldCount, hn]
  rw [unlock, howns, hid, hkey]
  simp only [hn]
  rw [hcount] at hpos hbound ⊢
  by_cases h1 : n = 1
  · subst h1
    simp [unlockMutex_eq]
  · have hmod : (n + (2 ^ 16 - 1)) % 2 ^ 16 = n - 1 := by omega
    rw [hmod, if_neg (by omega), if_neg h1]

theorem heldCount_unlock (hs : s.Sound) (hv : (s.locks v).ValidFor t key) (u : Thread)
    (key' : Bytes) :
    (s.unlock t (s.locks v)).heldCount u key' =
      if u = t ∧ key' = key then s.heldCount t key - 1 else s.heldCount u key' := by
  obtain ⟨id, hid⟩ := Option.ne_none_iff_exists'.1 (hs.owned v hv.1).1
  rw [hs.unlock_eq hv hid]
  split
  case isTrue h1 => split <;> simp [h1]
  case isFalse => simp

end Sound


/-! ## Every step keeps the invariant -/

theorem slotsWith_drop (P : TableLock Thread → Prop) [DecidablePred P] (hP : ¬ P {}) :
    (s.drop t v).slotsWith P = (s.slotsWith P).erase v := by
  have h := slotsWith_setLock (s := s.unlock t (s.locks v)) (v := v) P {}
  rw [if_neg hP] at h
  rw [drop, h]
  simp only [slotsWith, unlock_locks, unlock_slots]

theorem validSlots_drop (u : Thread) (key : Bytes) :
    (s.drop t v).validSlots u key = (s.validSlots u key).erase v :=
  slotsWith_drop _ (TableLock.not_validFor_empty u key)

theorem heldCount_drop (u : Thread) (key : Bytes) :
    (s.drop t v).heldCount u key = (s.unlock t (s.locks v)).heldCount u key := rfl

theorem locks_drop (w : Slot) : (s.drop t v).locks w = if w = v then {} else s.locks w := by
  by_cases hw : w = v <;> simp [drop, hw]

theorem Sound.drop (hs : s.Sound) (hv : ¬ s.Constructing v)
    (hd : (s.locks v).ownsLock = true → (s.locks v).acquirer = some t) : (s.drop t v).Sound where
  slots w hw := by
    have hne : w ≠ v := fun h => hw (by simp [LockState.drop, h])
    rw [locks_drop, if_neg hne]
    refine hs.slots w fun h => hw ?_
    simp [LockState.drop, h]
  table w id h := by
    rw [locks_drop] at h ⊢
    split at h
    · cases h
    · next hne =>
      simp only [if_neg hne, LockState.drop, setLock_tableLocks, unlock_tableLocks]
      exact hs.table w id h
  made key id h := by
    simp only [LockState.drop, setLock_tableLocks, unlock_tableLocks, setLock_mutexCount,
      unlock_mutexCount] at h ⊢
    exact hs.made key id h
  oneKey key key' id h h' := by
    simp only [LockState.drop, setLock_tableLocks, unlock_tableLocks] at h h'
    exact hs.oneKey key key' id h h'
  owned w h := by
    rw [locks_drop] at h ⊢
    split at h
    · cases h
    · next hne => simpa only [if_neg hne] using hs.owned w h
  count u key := by
    rw [heldCount_drop, validSlots_drop]
    by_cases howns : (s.locks v).ownsLock = true
    · have hvalid : (s.locks v).ValidFor t (s.locks v).tableKey := ⟨howns, hd howns, rfl⟩
      rw [hs.heldCount_unlock hvalid]
      split
      case isTrue h =>
        rw [h.1, h.2, Finset.card_erase_of_mem (hs.mem_validSlots hvalid), hs.count]
      case isFalse h =>
        have hnot : v ∉ s.validSlots u key := by
          intro hmem
          obtain ⟨-, -, ha, hk⟩ := mem_slotsWith.1 hmem
          rw [hd howns, Option.some_inj] at ha
          exact h ⟨ha.symm, hk.symm⟩
        rw [Finset.erase_eq_of_notMem hnot, hs.count]
    · have hnot : v ∉ s.validSlots u key := fun hmem => howns (mem_slotsWith.1 hmem).2.1
      rw [Finset.erase_eq_of_notMem hnot, unlock_of_not_owns (by simpa using howns), hs.count]
  bound u key := by
    rw [heldCount_drop]
    by_cases howns : (s.locks v).ownsLock = true
    · rw [hs.heldCount_unlock ⟨howns, hd howns, rfl⟩]
      split
      · exact (Nat.sub_le _ _).trans_lt (hs.bound _ _)
      · exact hs.bound u key
    · rw [unlock_of_not_owns (by simpa using howns)]
      exact hs.bound u key
  building u c h := by
    simp only [LockState.drop, setLock_calls, unlock_calls] at h
    rw [locks_drop, if_neg (hs.not_constructing hv h)]
    exact hs.building u c h

/-- When releasing a lock gives the mutex back: it is valid, it locked the mutex, and it is the
last of its thread for the key. -/
def GivesBack (s : LockState Thread Slot) (t : Thread) (v : Slot) : Prop :=
  (s.locks v).ownsLock = true ∧ (s.locks v).lockedMutex = true ∧
    s.heldCount t (s.locks v).tableKey = 1

theorem Sound.mutexes_drop (hs : s.Sound)
    (hd : (s.locks v).ownsLock = true → (s.locks v).acquirer = some t) :
    (s.GivesBack t v ∧ ∃ id, (s.locks v).mutex = some id ∧ (s.drop t v).mutexes =
      Function.update s.mutexes id (givenBack (s.mutexes id) t (s.locks v).mode)) ∨
    (¬ s.GivesBack t v ∧ (s.drop t v).mutexes = s.mutexes) := by
  have hdrop : (s.drop t v).mutexes = (s.unlock t (s.locks v)).mutexes := rfl
  by_cases howns : (s.locks v).ownsLock = true
  · obtain ⟨id, hid⟩ := Option.ne_none_iff_exists'.1 (hs.owned v howns).1
    have hunlock := hs.unlock_eq ⟨howns, hd howns, rfl⟩ hid
    rw [hdrop, hunlock]
    split
    case isTrue h1 =>
      split
      case isTrue hl => exact .inl ⟨⟨howns, hl, h1⟩, id, hid, rfl⟩
      case isFalse hl => exact .inr ⟨fun h => hl h.2.1, rfl⟩
    case isFalse h1 => exact .inr ⟨fun h => h1 h.2.2, rfl⟩
  · rw [hdrop, unlock_of_not_owns (by simpa using howns)]
    exact .inr ⟨fun h => howns h.1, rfl⟩

/-- The lock that gives the mutex back is the only one of its thread for this mutex. -/
theorem Sound.eq_of_givesBack (hs : s.Sound) (hg : s.GivesBack t v)
    (hv : (s.locks v).acquirer = some t) {id : Nat} (hid : (s.locks v).mutex = some id)
    (ho : (s.locks w).ownsLock = true) (hw : (s.locks w).acquirer = some t)
    (hid' : (s.locks w).mutex = some id) : w = v := by
  have hcard := hs.count t (s.locks v).tableKey
  rw [hg.2.2] at hcard
  have hone := Finset.card_le_one.1 hcard.ge
  exact hone w (hs.mem_validSlots ⟨ho, hw, hs.tableKey_eq hid' hid⟩) v
    (hs.mem_validSlots ⟨hg.1, hv, rfl⟩)

/-- The lock in `v` goes to `w`. -/
def transfer (s : LockState Thread Slot) (v w : Slot) : LockState Thread Slot :=
  (s.setLock w (s.locks v)).setLock v {}

/-- A move assignment first destroys what it overwrites. -/
theorem move_eq (hne : v ≠ w) : s.move t v w = (s.drop t w).transfer v w := by
  simp [move, drop, transfer, setLock, hne]

theorem locks_transfer (hne : v ≠ w) (x : Slot) : (s.transfer v w).locks x =
    if x = v then {} else if x = w then s.locks v else s.locks x := by
  by_cases hx : x = v
  · simp [transfer, hx]
  · by_cases hw : x = w
    · simp [transfer, hw, hne.symm]
    · simp [transfer, hx, hw]

theorem Sound.card_transfer (hs : s.Sound) (P : TableLock Thread → Prop) [DecidablePred P]
    (hP : ¬ P {}) (hw : s.locks w = {}) :
    ((s.transfer v w).slotsWith P).card = (s.slotsWith P).card := by
  have hw' : w ∉ s.slotsWith P := fun h => hP (hw ▸ (mem_slotsWith.1 h).2)
  rw [transfer, slotsWith_setLock, if_neg hP, slotsWith_setLock]
  by_cases hv : P (s.locks v)
  · have hmem : v ∈ s.slotsWith P := by
      refine mem_slotsWith.2 ⟨?_, hv⟩
      by_contra h
      exact hP (hs.slots v h ▸ hv)
    rw [if_pos hv, Finset.card_erase_of_mem (Finset.mem_insert_of_mem hmem),
      Finset.card_insert_of_notMem hw', Nat.add_sub_cancel]
  · have hmem : v ∉ s.slotsWith P := fun h => hv (mem_slotsWith.1 h).2
    rw [if_neg hv, Finset.erase_eq_of_notMem hw', Finset.erase_eq_of_notMem hmem]

theorem Sound.transfer (hs : s.Sound) (hne : v ≠ w) (hw : s.locks w = {})
    (hv : ¬ s.Constructing v) : (s.transfer v w).Sound where
  slots x hx := by
    simp only [LockState.transfer, setLock_slots, Finset.mem_insert, not_or] at hx
    rw [locks_transfer hne, if_neg hx.1, if_neg hx.2.1]
    exact hs.slots x hx.2.2
  table x id h := by
    rw [locks_transfer hne] at h ⊢
    split at h
    · cases h
    · next hxv =>
      rw [if_neg hxv]
      split at h
      · next hxw =>
        rw [if_pos hxw]
        exact hs.table v id h
      · next hxw =>
        rw [if_neg hxw]
        exact hs.table x id h
  made := hs.made
  oneKey := hs.oneKey
  owned x h := by
    rw [locks_transfer hne] at h ⊢
    split at h
    · cases h
    · next hxv =>
      rw [if_neg hxv]
      split at h
      · next hxw => simpa only [if_pos hxw] using hs.owned v h
      · next hxw => simpa only [if_neg hxw] using hs.owned x h
  count u key :=
    (hs.count u key).trans
      (hs.card_transfer _ (TableLock.not_validFor_empty u key) hw).symm
  bound := hs.bound
  building u c h := by
    have hcv : c.slot ≠ v := hs.not_constructing hv h
    have hcw : c.slot ≠ w := by
      rintro rfl
      have := (hs.building u c h).2.1
      simp [hw] at this
    rw [locks_transfer hne, if_neg hcv, if_neg hcw]
    exact hs.building u c h

theorem constructing_drop (hne : v ≠ w) :
    (s.drop t w).Constructing v ↔ s.Constructing v := by
  simp only [Constructing, locks_drop, if_neg hne]
  simp only [drop, setLock_calls, unlock_calls]

theorem Sound.move (hs : s.Sound) (hv : ¬ s.Constructing v) (hw : ¬ s.Constructing w)
    (hd : v ≠ w → (s.locks w).ownsLock = true → (s.locks w).acquirer = some t) :
    (s.move t v w).Sound := by
  by_cases hne : v = w
  · rwa [LockState.move, if_pos hne]
  · rw [move_eq hne]
    have hdrop : (s.drop t w).Sound := hs.drop hw (hd hne)
    refine hdrop.transfer hne ?_ ((constructing_drop hne).not.2 hv)
    rw [locks_drop, if_pos rfl]

/-! ### Requests -/

theorem Sound.newMutex (hs : s.Sound) (hkey : ∀ v, (s.locks v).tableKey = key →
    (s.locks v).mutex = none) : (s.newMutex key).2.Sound where
  slots := hs.slots
  table v id h := by
    have hne : (s.locks v).tableKey ≠ key := fun hk => by
      have := hkey v hk
      rw [show (s.locks v).mutex = some id from h] at this
      cases this
    simpa [LockState.newMutex, hne] using hs.table v id h
  made key' id h := by
    simp only [LockState.newMutex, Function.update_apply] at h ⊢
    split at h
    · cases h
      exact Nat.lt_succ_self _
    · exact (hs.made key' id h).trans (Nat.lt_succ_self _)
  oneKey key₁ key₂ id h₁ h₂ := by
    simp only [LockState.newMutex, Function.update_apply] at h₁ h₂
    split at h₁ <;> split at h₂
    · simp_all
    · cases h₁
      exact absurd (hs.made _ _ h₂) (lt_irrefl _)
    · cases h₂
      exact absurd (hs.made _ _ h₁) (lt_irrefl _)
    · exact hs.oneKey key₁ key₂ id h₁ h₂
  owned := hs.owned
  count := hs.count
  bound := hs.bound
  building := hs.building

/-- `mutex_for_table` returns the mutex of the key, and changes nothing but the table of mutexes. -/
theorem Sound.mutexForTable (hs : s.Sound) (key : Bytes) :
    (s.mutexForTable key).2.Sound ∧
      (s.mutexForTable key).2.tableLocks key = some (s.mutexForTable key).1 := by
  have hnew (h : ∀ v, (s.locks v).tableKey = key → (s.locks v).mutex = none) :
      (s.newMutex key).2.Sound ∧ (s.newMutex key).2.tableLocks key = some (s.newMutex key).1 :=
    ⟨hs.newMutex h, by simp [LockState.newMutex]⟩
  have hmutex (v : Slot) (id : Nat) (hk : (s.locks v).tableKey = key)
      (h : (s.locks v).mutex = some id) : s.tableLocks key = some id := hk ▸ hs.table v id h
  rw [LockState.mutexForTable]
  split
  case h_1 id hid =>
    split
    case isTrue hexp =>
      refine hnew fun v hk => ?_
      by_contra hne
      obtain ⟨id', hid'⟩ := Option.ne_none_iff_exists'.1 hne
      have hv : v ∈ s.slots := by
        by_contra hv
        simp [hs.slots v hv] at hid'
      refine hexp v hv ?_
      rw [hid', ← hmutex v id' hk hid', hid]
    case isFalse => exact ⟨hs, hid⟩
  case h_2 hnone =>
    refine hnew fun v hk => ?_
    by_contra hne
    obtain ⟨id', hid'⟩ := Option.ne_none_iff_exists'.1 hne
    rw [hmutex v id' hk hid'] at hnone
    cases hnone

theorem mutexForTable_frame (key : Bytes) :
    (s.mutexForTable key).2.locks = s.locks ∧ (s.mutexForTable key).2.slots = s.slots ∧
      (s.mutexForTable key).2.mutexes = s.mutexes ∧
      (s.mutexForTable key).2.calls = s.calls ∧
      (s.mutexForTable key).2.heldTableLocks = s.heldTableLocks := by
  rw [mutexForTable]
  split
  · split <;> exact ⟨rfl, rfl, rfl, rfl, rfl⟩
  · exact ⟨rfl, rfl, rfl, rfl, rfl⟩

theorem slotsWith_construct {id : Nat} {mode : TableLockMode} {timed : Bool}
    (P : TableLock Thread → Prop) [DecidablePred P] (hP : ∀ l, P l → l.ownsLock = true)
    (hv : (s.locks v).ownsLock = false) :
    (s.construct t v key id mode timed).slotsWith P = s.slotsWith P := by
  have hnew : ¬ P { tableKey := key, mutex := some id, mode, acquirer := some t } :=
    fun h => Bool.noConfusion (hP _ h)
  have hold : v ∉ s.slotsWith P := fun h => by
    have := hP _ (mem_slotsWith.1 h).2
    rw [hv] at this
    cases this
  have h := slotsWith_setLock (s := s) (v := v) P
    { tableKey := key, mutex := some id, mode, acquirer := some t }
  rw [if_neg hnew, Finset.erase_eq_of_notMem hold] at h
  exact h

theorem Sound.not_owns (hs : s.Sound) (hv : (s.locks v).mutex = none) :
    (s.locks v).ownsLock = false := by
  by_contra h
  exact (hs.owned v (by simpa using h)).1 hv

theorem Sound.construct (hs : s.Sound) {id : Nat} {mode : TableLockMode} {timed : Bool}
    (hid : s.tableLocks key = some id) (hv : (s.locks v).mutex = none) :
    (s.construct t v key id mode timed).Sound where
  slots w hw := by
    simp only [LockState.construct, setCall_slots, setHeld_slots, setLock_slots,
      Finset.mem_insert, not_or] at hw
    simpa [LockState.construct, hw.1] using hs.slots w hw.2
  table w id' h := by
    by_cases hw : w = v
    · subst hw
      simp only [LockState.construct, setCall_locks, setHeld_locks, setLock_locks,
        Function.update_self] at h ⊢
      cases h
      exact hid
    · simp only [LockState.construct, setCall_locks, setHeld_locks, setLock_locks,
        Function.update_of_ne hw] at h ⊢
      exact hs.table w id' h
  made := hs.made
  oneKey := hs.oneKey
  owned w h := by
    by_cases hw : w = v
    · subst hw
      simp [LockState.construct] at h
    · simp only [LockState.construct, setCall_locks, setHeld_locks, setLock_locks,
        Function.update_of_ne hw] at h ⊢
      exact hs.owned w h
  count u key' := by
    rw [validSlots, slotsWith_construct _ (fun l h => h.1) (hs.not_owns hv)]
    refine Eq.trans ?_ (hs.count u key')
    simp only [LockState.construct, heldCount_setCall, heldCount_setHeld, heldCount_setLock]
    split
    case isTrue h => simp [h.1, h.2]
    case isFalse => rfl
  bound u key' := by
    simp only [LockState.construct, heldCount_setCall, heldCount_setHeld, heldCount_setLock]
    split
    · exact hs.bound t key
    · exact hs.bound u key'
  building u c h := by
    by_cases hu : u = t
    · subst hu
      simp only [LockState.construct, setCall_calls, Function.update_self, Option.some_inj] at h
      subst h
      simp [LockState.construct]
    · simp only [LockState.construct, setCall_calls, Function.update_of_ne hu] at h
      have hcv : c.slot ≠ v := by
        rintro rfl
        exact (hs.building u c h).2.1 hv
      simpa [LockState.construct, hcv] using hs.building u c h

theorem Sound.request (hs : s.Sound) {mode : TableLockMode} {timed : Bool}
    (hv : (s.locks v).mutex = none) : (s.request t v key mode timed).Sound := by
  obtain ⟨hs', hid⟩ := hs.mutexForTable key
  refine hs'.construct hid ?_
  rwa [(mutexForTable_frame key).1]

/-! ### The end of a constructor call -/

theorem Sound.setMutex (hs : s.Sound) (id : Nat) (m : SharedMutex Thread) :
    (s.setMutex id m).Sound :=
  ⟨hs.slots, hs.table, hs.made, hs.oneKey, hs.owned, hs.count, hs.bound, hs.building⟩

/-- The calls in which a thread is: its own lock is the only one it constructs. -/
theorem Sound.slot_ne (hs : s.Sound) {c c' : LockCall Slot} (hc : s.calls t = some c)
    (hc' : s.calls u = some c') (hne : u ≠ t) : c'.slot ≠ c.slot := by
  intro h
  have ht := (hs.building t c hc).1
  rw [← h, (hs.building u c' hc').1, Option.some_inj] at ht
  exact hne ht

theorem slotsWith_obtained (P : TableLock Thread → Prop) [DecidablePred P] (locked : Bool) :
    (s.obtained t v locked).slotsWith P =
      if P { s.locks v with ownsLock := true, lockedMutex := locked } then
        insert v (s.slotsWith P)
      else (s.slotsWith P).erase v :=
  slotsWith_setLock (s := s.setHeld t (s.locks v).tableKey _) P _

theorem Sound.obtained (hs : s.Sound) {c : LockCall Slot} (hc : s.calls t = some c)
    (hd : s.heldCount t (s.locks c.slot).tableKey + 1 < 2 ^ 16) (locked : Bool) :
    (s.obtained t c.slot locked).Sound where
  slots w hw := by
    simp only [LockState.obtained, setCall_slots, setHeld_slots, setLock_slots,
      Finset.mem_insert, not_or] at hw
    simpa [LockState.obtained, hw.1] using hs.slots w hw.2
  table w id h := by
    by_cases hw : w = c.slot
    · subst hw
      simp only [LockState.obtained, setCall_locks, setLock_locks, Function.update_self] at h ⊢
      exact hs.table _ id h
    · simp only [LockState.obtained, setCall_locks, setHeld_locks, setLock_locks,
        Function.update_of_ne hw] at h ⊢
      exact hs.table w id h
  made := hs.made
  oneKey := hs.oneKey
  owned w h := by
    by_cases hw : w = c.slot
    · subst hw
      obtain ⟨hacq, hmutex, -⟩ := hs.building t c hc
      simp only [LockState.obtained, setCall_locks, setLock_locks, Function.update_self]
      exact ⟨hmutex, by simp [hacq]⟩
    · simp only [LockState.obtained, setCall_locks, setHeld_locks, setLock_locks,
        Function.update_of_ne hw] at h ⊢
      exact hs.owned w h
  count u key := by
    obtain ⟨hacq, -, howns⟩ := hs.building t c hc
    have hnot : c.slot ∉ s.slotsWith fun l => l.ValidFor u key := by
      intro h
      have := (mem_slotsWith.1 h).2.1
      rw [howns] at this
      cases this
    rw [validSlots, slotsWith_obtained]
    simp only [LockState.obtained, heldCount_setCall, heldCount_setHeld, heldCount_setLock]
    by_cases hu : u = t ∧ key = (s.locks c.slot).tableKey
    · rw [if_pos hu, if_pos ⟨rfl, hu.1 ▸ hacq, hu.2.symm⟩, Finset.card_insert_of_notMem hnot,
        Option.getD_some, Nat.mod_eq_of_lt hd, hu.1, hu.2, hs.count, validSlots]
    · rw [if_neg hu, if_neg, Finset.erase_eq_of_notMem hnot, hs.count, validSlots]
      rintro ⟨-, hu', hk⟩
      simp only at hu' hk
      rw [hacq, Option.some_inj] at hu'
      exact hu ⟨hu'.symm, hk.symm⟩
  bound u key := by
    simp only [LockState.obtained, heldCount_setCall, heldCount_setHeld, heldCount_setLock]
    split
    · exact Nat.mod_lt _ (Nat.two_pow_pos 16)
    · exact hs.bound u key
  building u c' h := by
    have hu : u ≠ t := by
      rintro rfl
      simp [LockState.obtained] at h
    simp only [LockState.obtained, setCall_calls, setLock_calls, setHeld_calls,
      Function.update_of_ne hu] at h
    simpa [LockState.obtained, hs.slot_ne hc h hu] using hs.building u c' h

/-- How a constructor call obtains the lock: it locks the mutex where its thread has no other lock
of the key, and else only counts. -/
theorem enter_cases {s' : LockState Thread Slot} (h : s.enter t v = some s') :
    (s.heldCount t (s.locks v).tableKey = 0 ∧ ∃ id m, (s.locks v).mutex = some id ∧
      ((s.locks v).mode = .shared ∧ (s.mutexes id).lockShared t = some m ∨
        (s.locks v).mode = .exclusive ∧ (s.mutexes id).lock t = some m) ∧
      s' = (s.setMutex id m).obtained t v true) ∨
    (s.heldCount t (s.locks v).tableKey ≠ 0 ∧ s' = s.obtained t v false) := by
  rw [enter] at h
  split at h
  case isTrue h0 =>
    obtain ⟨id, hid, h⟩ := Option.bind_eq_some_iff.1 h
    obtain ⟨s₁, hs₁, rfl⟩ := Option.map_eq_some_iff.1 h
    refine .inl ⟨h0, id, ?_⟩
    cases hmode : (s.locks v).mode with
    | shared =>
      rw [hmode, lockMutex, Option.map_eq_some_iff] at hs₁
      obtain ⟨m, hm, rfl⟩ := hs₁
      exact ⟨m, hid, .inl ⟨rfl, hm⟩, rfl⟩
    | exclusive =>
      rw [hmode, lockMutex, Option.map_eq_some_iff] at hs₁
      obtain ⟨m, hm, rfl⟩ := hs₁
      exact ⟨m, hid, .inr ⟨rfl, hm⟩, rfl⟩
  case isFalse h0 => exact .inr ⟨h0, (Option.some_inj.1 h).symm⟩

theorem Sound.timeout (hs : s.Sound) {c : LockCall Slot}
    (h0 : s.heldCount t (s.locks c.slot).tableKey = 0) : (s.timeout t c.slot).Sound where
  slots := hs.slots
  table := hs.table
  made := hs.made
  oneKey := hs.oneKey
  owned := hs.owned
  count u key := by
    refine Eq.trans ?_ (hs.count u key)
    simp only [LockState.timeout, heldCount_setCall, heldCount_setHeld]
    split
    case isTrue h => rw [h.1, h.2, h0, Option.getD_none]
    case isFalse => rfl
  bound u key := by
    simp only [LockState.timeout, heldCount_setCall, heldCount_setHeld]
    split
    · exact Nat.two_pow_pos 16
    · exact hs.bound u key
  building u c' h := by
    have hu : u ≠ t := by
      rintro rfl
      simp [LockState.timeout] at h
    simp only [LockState.timeout, setCall_calls, setHeld_calls, Function.update_of_ne hu] at h
    exact hs.building u c' h

/-! ### Steps -/

/-- What a step does, with its guards. -/
theorem next_cases {a : Action Thread Slot} {s' : LockState Thread Slot} (h : s.next a = some s') :
    (∃ t v key mode timed, a = .request t v key mode timed ∧ s.calls t = none ∧
      (s.locks v).mutex = none ∧ s' = s.request t v key mode timed) ∨
    (∃ t c, a = .enter t ∧ s.calls t = some c ∧ s.enter t c.slot = some s') ∨
    (∃ t c, a = .timeout t ∧ s.calls t = some c ∧ c.timed = true ∧
      s.heldCount t (s.locks c.slot).tableKey = 0 ∧ s' = s.timeout t c.slot) ∨
    (∃ t v, a = .drop t v ∧ s.calls t = none ∧ ¬ s.Constructing v ∧ s' = s.drop t v) ∨
    (∃ t v w, a = .move t v w ∧ s.calls t = none ∧ ¬ s.Constructing v ∧ ¬ s.Constructing w ∧
      s' = s.move t v w) := by
  cases a with
  | request t v key mode timed =>
    rw [next, Option.ite_none_right_eq_some, Option.isNone_iff_eq_none,
      Option.isNone_iff_eq_none, Option.some_inj] at h
    exact .inl ⟨t, v, key, mode, timed, rfl, h.1.1, h.1.2, h.2.symm⟩
  | enter t =>
    obtain ⟨c, hc, h⟩ := Option.bind_eq_some_iff.1 h
    exact .inr (.inl ⟨t, c, rfl, hc, h⟩)
  | timeout t =>
    obtain ⟨c, hc, h⟩ := Option.bind_eq_some_iff.1 h
    rw [Option.ite_none_right_eq_some, Option.some_inj] at h
    exact .inr (.inr (.inl ⟨t, c, rfl, hc, h.1.1, h.1.2, h.2.symm⟩))
  | drop t v =>
    rw [next, Option.ite_none_right_eq_some, Option.isNone_iff_eq_none, Option.some_inj] at h
    exact .inr (.inr (.inr (.inl ⟨t, v, rfl, h.1.1, h.1.2, h.2.symm⟩)))
  | move t v w =>
    rw [next, Option.ite_none_right_eq_some, Option.isNone_iff_eq_none, Option.some_inj] at h
    exact .inr (.inr (.inr (.inr ⟨t, v, w, rfl, h.1.1, h.1.2.1, h.1.2.2, h.2.symm⟩)))

/-- A disciplined step keeps the invariant. -/
theorem Sound.next (hs : s.Sound) {a : Action Thread Slot} {s' : LockState Thread Slot}
    (hd : s.Disciplined a) (h : s.next a = some s') : s'.Sound := by
  rcases next_cases h with ⟨t, v, key, mode, timed, rfl, -, hv, rfl⟩ | ⟨t, c, rfl, hc, h⟩ |
    ⟨t, c, rfl, hc, -, h0, rfl⟩ | ⟨t, v, rfl, -, hv, rfl⟩ | ⟨t, v, w, rfl, -, hv, hw, rfl⟩
  · exact hs.request hv
  · rcases enter_cases h with ⟨-, id, m, -, -, rfl⟩ | ⟨-, rfl⟩
    · exact (hs.setMutex id m).obtained hc (hd c hc) true
    · exact hs.obtained hc (hd c hc) false
  · exact hs.timeout h0
  · exact hs.drop hv hd
  · exact hs.move hv hw hd

end LockState

/-- The invariant holds after every disciplined run. -/
theorem sound_of_reaches {Thread Slot : Type} [DecidableEq Thread] [DecidableEq Slot]
    {s : LockState Thread Slot}
    (h : (lockMachine Thread Slot).Reaches LockState.Disciplined s) : s.Sound :=
  h.invariant LockState.Sound.sound_empty fun _ _ _ hs hd hnext => hs.next hd hnext

end ScratchDb
