import ScratchDb.Concurrency.HeldLocks

/-!
# Who holds the mutexes

Two properties of the lock manager. Mutual exclusion: while a thread has a
valid exclusive lock of a key, no other thread has a valid lock of it. No
leak: when no valid lock of a key is left, its mutex is free and no thread
counts a lock. Each needs a discipline of its own, because the mode of a nested
lock is ignored, and only the lock that took the mutex ever gives it back.
-/

set_option linter.unusedSectionVars false

namespace ScratchDb

namespace LockState

variable {Thread Slot : Type} [DecidableEq Thread] [DecidableEq Slot]
  {s : LockState Thread Slot} {t u : Thread} {v w : Slot} {key : Bytes}

/-! ## Mutual exclusion -/

/-- A thread that nests an exclusive lock has locked the mutex exclusively already. -/
def NestsWithinMode (s : LockState Thread Slot) : Action Thread Slot → Prop
  | .enter t => ∀ c ∈ s.calls t, (s.locks c.slot).mode = .exclusive →
    s.heldCount t (s.locks c.slot).tableKey ≠ 0 →
      ∃ id ∈ (s.locks c.slot).mutex, (s.mutexes id).writer = some t
  | _ => True

instance (s : LockState Thread Slot) (a : Action Thread Slot) :
    Decidable (s.NestsWithinMode a) :=
  match a with
  | .enter _ => by dsimp only [NestsWithinMode]; infer_instance
  | .request .. => isTrue trivial
  | .timeout _ => isTrue trivial
  | .drop .. => isTrue trivial
  | .move .. => isTrue trivial

/-- A valid lock is backed by its mutex, in its mode. -/
structure Backed (s : LockState Thread Slot) : Prop where
  alone : ∀ id, (s.mutexes id).Exclusive
  held : ∀ v t id, (s.locks v).ownsLock = true → (s.locks v).acquirer = some t →
    (s.locks v).mutex = some id → (s.mutexes id).HeldBy t
  writer : ∀ v t id, (s.locks v).ownsLock = true → (s.locks v).acquirer = some t →
    (s.locks v).mutex = some id → (s.locks v).mode = .exclusive → (s.mutexes id).writer = some t

theorem backed_empty : (empty : LockState Thread Slot).Backed where
  alone _ := SharedMutex.exclusive_empty
  held _ _ _ h := by cases h
  writer _ _ _ h := by cases h

/-- A step that changes no mutex, and whose valid locks were there before, keeps it. -/
theorem Backed.of_locks (hb : s.Backed) {s' : LockState Thread Slot}
    (hm : s'.mutexes = s.mutexes)
    (hl : ∀ w, (s'.locks w).ownsLock = true → ∃ x, s.locks x = s'.locks w) : s'.Backed where
  alone id := hm ▸ hb.alone id
  held w t id ho ha hid := by
    obtain ⟨x, hx⟩ := hl w ho
    rw [← hx] at ho ha hid
    exact hm ▸ hb.held x t id ho ha hid
  writer w t id ho ha hid hmode := by
    obtain ⟨x, hx⟩ := hl w ho
    rw [← hx] at ho ha hid hmode
    exact hm ▸ hb.writer x t id ho ha hid hmode

/-- A valid lock that is left after `v` was destroyed was there before, in another variable. -/
theorem of_locks_drop (h : ((s.drop t v).locks w).ownsLock = true) :
    w ≠ v ∧ (s.drop t v).locks w = s.locks w := by
  rw [locks_drop] at h ⊢
  split at h
  · cases h
  · next hne => exact ⟨hne, if_neg hne⟩

theorem Backed.drop (hb : s.Backed) (hs : s.Sound)
    (hd : (s.locks v).ownsLock = true → (s.locks v).acquirer = some t) : (s.drop t v).Backed := by
  rcases hs.mutexes_drop hd with ⟨hg, id, hid, hmutexes⟩ | ⟨-, hmutexes⟩
  · have hacq := hd hg.1
    -- the other valid locks of this mutex are locks of other threads
    have hother {w : Slot} {u : Thread} (h : ((s.drop t v).locks w).ownsLock = true)
        (hu : (s.locks w).acquirer = some u) (hw : (s.locks w).mutex = some id) : u ≠ t := by
      rintro rfl
      obtain ⟨hne, heq⟩ := of_locks_drop h
      exact hne (hs.eq_of_givesBack hg hacq hid (heq ▸ h) hu hw)
    constructor
    · intro id'
      rw [hmutexes]
      by_cases hi : id' = id
      · subst hi
        rw [Function.update_self]
        cases (s.locks v).mode with
        | shared => exact (hb.alone id').unlockShared
        | exclusive => exact SharedMutex.exclusive_unlock
      · rw [Function.update_of_ne hi]
        exact hb.alone id'
    · intro w u id' ho hu hw
      have heq := (of_locks_drop ho).2
      rw [heq] at hu hw
      have hheld := hb.held w u id' (heq ▸ ho) hu hw
      rw [hmutexes]
      by_cases hi : id' = id
      · subst hi
        rw [Function.update_self]
        have hne := hother ho hu hw
        cases hmode : (s.locks v).mode with
        | shared => exact (SharedMutex.heldBy_unlockShared hne).2 hheld
        | exclusive =>
          have hwriter := hb.writer v t id' hg.1 hacq hid hmode
          exact absurd ((hb.alone id').eq_of_heldBy hwriter hheld) hne
      · rwa [Function.update_of_ne hi]
    · intro w u id' ho hu hw hexcl
      have heq := (of_locks_drop ho).2
      rw [heq] at hu hw hexcl
      have hwriter := hb.writer w u id' (heq ▸ ho) hu hw hexcl
      rw [hmutexes]
      by_cases hi : id' = id
      · subst hi
        rw [Function.update_self]
        have hne := hother ho hu hw
        have hheld := hb.held v t id' hg.1 hacq hid
        exact absurd ((hb.alone id').eq_of_heldBy hwriter hheld).symm hne
      · rwa [Function.update_of_ne hi]
  · refine hb.of_locks hmutexes fun w h => ⟨w, (of_locks_drop h).2.symm⟩

theorem Backed.transfer (hb : s.Backed) (hne : v ≠ w) : (s.transfer v w).Backed := by
  refine hb.of_locks rfl fun x h => ?_
  rw [locks_transfer hne] at h ⊢
  split at h
  · cases h
  · split at h
    · next hx hxw => exact ⟨v, by rw [if_neg hx, if_pos hxw]⟩
    · next hx hxw => exact ⟨x, by rw [if_neg hx, if_neg hxw]⟩

theorem Backed.move (hb : s.Backed) (hs : s.Sound)
    (hd : v ≠ w → (s.locks w).ownsLock = true → (s.locks w).acquirer = some t) :
    (s.move t v w).Backed := by
  by_cases hne : v = w
  · rwa [LockState.move, if_pos hne]
  · rw [move_eq hne]
    exact (hb.drop hs (hd hne)).transfer hne

theorem Backed.request (hb : s.Backed) {mode : TableLockMode} {timed : Bool} :
    (s.request t v key mode timed).Backed := by
  obtain ⟨hlocks, -, hmutexes, -⟩ := mutexForTable_frame (s := s) key
  refine hb.of_locks hmutexes fun w h => ⟨w, ?_⟩
  have heq : (s.request t v key mode timed).locks = Function.update s.locks v
      { tableKey := key, mutex := some (s.mutexForTable key).1, mode, acquirer := some t } := by
    rw [← hlocks]
    rfl
  rw [heq] at h ⊢
  by_cases hw : w = v
  · subst hw
    rw [Function.update_self] at h
    cases h
  · rw [Function.update_of_ne hw]

/-- The lock that a constructor call obtains, once its thread has the mutex. -/
theorem Backed.obtained (hb : s.Backed) {locked : Bool}
    (h : ∀ t' id, (s.locks v).acquirer = some t' → (s.locks v).mutex = some id →
      (s.mutexes id).HeldBy t' ∧
        ((s.locks v).mode = .exclusive → (s.mutexes id).writer = some t')) :
    (s.obtained t v locked).Backed := by
  have hlocks : (s.obtained t v locked).locks = Function.update s.locks v
      { s.locks v with ownsLock := true, lockedMutex := locked } := rfl
  refine ⟨hb.alone, ?_, ?_⟩
  · intro w u id ho hu hw
    rw [hlocks] at ho hu hw
    by_cases hwv : w = v
    · subst hwv
      rw [Function.update_self] at hu hw
      exact (h u id hu hw).1
    · rw [Function.update_of_ne hwv] at ho hu hw
      exact hb.held w u id ho hu hw
  · intro w u id ho hu hw hexcl
    rw [hlocks] at ho hu hw hexcl
    by_cases hwv : w = v
    · subst hwv
      rw [Function.update_self] at hu hw hexcl
      exact (h u id hu hw).2 hexcl
    · rw [Function.update_of_ne hwv] at ho hu hw hexcl
      exact hb.writer w u id ho hu hw hexcl

/-- Locking a mutex takes it from nobody. -/
theorem Backed.setMutex (hb : s.Backed) {id : Nat} {m : SharedMutex Thread}
    (hl : (s.mutexes id).lockShared t = some m ∨ (s.mutexes id).lock t = some m) :
    (s.setMutex id m).Backed := by
  have hkeep : m.Exclusive ∧ (∀ u, (s.mutexes id).HeldBy u → m.HeldBy u) ∧
      (s.mutexes id).writer = none := by
    rcases hl with hl | hl
    · refine ⟨SharedMutex.Exclusive.lockShared hl, fun u hu => ?_, ?_⟩
      · obtain ⟨-, rfl⟩ := SharedMutex.lockShared_eq_some.1 hl
        exact hu.imp (List.mem_cons_of_mem t) fun h => h
      · exact (SharedMutex.lockShared_eq_some.1 hl).1
    · obtain ⟨hfree, -⟩ := SharedMutex.lock_eq_some.1 hl
      refine ⟨SharedMutex.Exclusive.lock hl, fun u hu => ?_, hfree.2⟩
      rw [SharedMutex.HeldBy, hfree.1, hfree.2] at hu
      simp at hu
  constructor
  · intro id'
    by_cases hi : id' = id
    · subst hi
      simpa using hkeep.1
    · simpa [hi] using hb.alone id'
  · intro w u id' ho hu hw
    have := hb.held w u id' ho hu hw
    by_cases hi : id' = id
    · subst hi
      simpa using hkeep.2.1 u this
    · simpa [hi] using this
  · intro w u id' ho hu hw hexcl
    have := hb.writer w u id' ho hu hw hexcl
    by_cases hi : id' = id
    · subst hi
      rw [hkeep.2.2] at this
      cases this
    · simpa [hi] using this

theorem Backed.enter (hb : s.Backed) (hs : s.Sound) {c : LockCall Slot}
    {s' : LockState Thread Slot} (hc : s.calls t = some c) (hn : s.NestsWithinMode (.enter t))
    (h : s.enter t c.slot = some s') : s'.Backed := by
  have hacq := (hs.building t c hc).1
  rcases enter_cases h with ⟨-, id, m, hid, hl, rfl⟩ | ⟨h0, rfl⟩
  · have hset : (s.setMutex id m).Backed :=
      hb.setMutex (hl.imp (fun h => h.2) fun h => h.2)
    refine hset.obtained fun t' id' ht hid' => ?_
    rw [setMutex_locks, hacq, Option.some_inj] at ht
    rw [setMutex_locks, hid, Option.some_inj] at hid'
    subst ht hid'
    rw [setMutex_locks, setMutex_mutexes, Function.update_self]
    rcases hl with ⟨hmode, hl⟩ | ⟨-, hl⟩
    · obtain ⟨-, rfl⟩ := SharedMutex.lockShared_eq_some.1 hl
      refine ⟨.inl List.mem_cons_self, fun hexcl => ?_⟩
      rw [hmode] at hexcl
      cases hexcl
    · obtain ⟨-, rfl⟩ := SharedMutex.lock_eq_some.1 hl
      exact ⟨.inr rfl, fun _ => rfl⟩
  · -- a nested lock shares the mutex of the thread's other locks of the key
    refine hb.obtained fun t' id' ht hid' => ?_
    rw [hacq, Option.some_inj] at ht
    subst ht
    refine ⟨?_, fun hexcl => ?_⟩
    · rw [hs.count, Finset.card_ne_zero] at h0
      obtain ⟨w, hw⟩ := h0
      obtain ⟨-, ho, hwt, hkey⟩ := mem_slotsWith.1 hw
      obtain ⟨id, hid⟩ := Option.ne_none_iff_exists'.1 (hs.owned w ho).1
      rw [← hs.mutex_eq hid hid' hkey]
      exact hb.held w t id ho hwt hid
    · obtain ⟨id, hid, hwriter⟩ := hn c hc hexcl h0
      rw [hid, Option.some_inj] at hid'
      exact hid' ▸ hwriter

theorem Backed.next (hb : s.Backed) (hs : s.Sound) {a : Action Thread Slot}
    {s' : LockState Thread Slot} (hd : s.Disciplined a) (hn : s.NestsWithinMode a)
    (h : s.next a = some s') : s'.Backed := by
  rcases next_cases h with ⟨t, v, key, mode, timed, rfl, -, hv, rfl⟩ | ⟨t, c, rfl, hc, h⟩ |
    ⟨t, c, rfl, hc, -, h0, rfl⟩ | ⟨t, v, rfl, -, hv, rfl⟩ | ⟨t, v, w, rfl, -, hv, hw, rfl⟩
  · exact hb.request
  · exact hb.enter hs hc hn h
  · exact ⟨hb.alone, hb.held, hb.writer⟩
  · exact hb.drop hs hd
  · exact hb.move hs hd

/-- A step that keeps mutual exclusion: it releases only what its thread acquired, does not nest
too deep, and nests exclusive locks in exclusive ones only. -/
def KeepsModes (s : LockState Thread Slot) (a : Action Thread Slot) : Prop :=
  s.Disciplined a ∧ s.NestsWithinMode a

instance (s : LockState Thread Slot) (a : Action Thread Slot) : Decidable (s.KeepsModes a) :=
  inferInstanceAs (Decidable (_ ∧ _))

theorem backed_of_reaches (h : (lockMachine Thread Slot).Reaches KeepsModes s) :
    s.Sound ∧ s.Backed := by
  refine h.invariant (I := fun s => s.Sound ∧ s.Backed) ⟨Sound.sound_empty, backed_empty⟩ ?_
  intro s s' a hs hk hnext
  exact ⟨hs.1.next hk.1 hnext, hs.2.next hs.1 hk.1 hk.2 hnext⟩

/-- No thread has a valid exclusive lock of a key while another thread has a valid lock of it. -/
def MutuallyExclusive (s : LockState Thread Slot) : Prop :=
  ∀ v w t u, (s.locks v).ownsLock = true → (s.locks w).ownsLock = true →
    (s.locks v).acquirer = some t → (s.locks w).acquirer = some u →
    (s.locks v).tableKey = (s.locks w).tableKey → (s.locks v).mode = .exclusive → t = u

theorem Backed.mutuallyExclusive (hb : s.Backed) (hs : s.Sound) : s.MutuallyExclusive := by
  intro v w t u hv hw ht hu hkey hexcl
  obtain ⟨id, hid⟩ := Option.ne_none_iff_exists'.1 (hs.owned v hv).1
  obtain ⟨id', hid'⟩ := Option.ne_none_iff_exists'.1 (hs.owned w hw).1
  have heq := hs.mutex_eq hid hid' hkey
  subst heq
  have hwriter := hb.writer v t id hv ht hid hexcl
  exact ((hb.alone id).eq_of_heldBy hwriter (hb.held w u id hw hu hid')).symm

/-- Mutual exclusion holds in every state that a run of such steps reaches. -/
theorem mutuallyExclusive_of_reaches (h : (lockMachine Thread Slot).Reaches KeepsModes s) :
    s.MutuallyExclusive :=
  (backed_of_reaches h).2.mutuallyExclusive (backed_of_reaches h).1

/-- Thread 2 asks for a shared lock while thread 1 has an exclusive one. -/
theorem mutuallyExclusive_of_reaches_oneWriter :
    ∃ s, (lockMachine Nat Nat).runWhile KeepsModes .empty [.request 1 0 [] .exclusive false,
      .enter 1, .request 2 1 [] .shared true, .timeout 2] = some s ∧ s.MutuallyExclusive := by
  refine ⟨_, rfl, mutuallyExclusive_of_reaches ?_⟩
  exact Machine.Reaches.init.runWhile (m := lockMachine Nat Nat) (l := [
    .request 1 0 [] .exclusive false, .enter 1, .request 2 1 [] .shared true, .timeout 2]) rfl

/-- Thread 1 takes a shared lock and nests an exclusive one, which locks nothing; thread 2 then
takes a shared lock. -/
def upgradeInPlace : List (Action Nat Nat) :=
  [.request 1 0 [] .shared false, .enter 1, .request 1 1 [] .exclusive false, .enter 1,
    .request 2 2 [] .shared false, .enter 2]

theorem upgradeInPlace_not_mutuallyExclusive :
    ∃ s, (lockMachine Nat Nat).run upgradeInPlace = some s ∧ ¬ s.MutuallyExclusive := by
  have hlocks : ((lockMachine Nat Nat).run upgradeInPlace).map
      (fun s => ((s.locks 1).ownsLock, (s.locks 2).ownsLock, (s.locks 1).acquirer,
        (s.locks 2).acquirer, (s.locks 1).tableKey, (s.locks 2).tableKey, (s.locks 1).mode)) =
      some (true, true, some 1, some 2, [], [], .exclusive) := by rfl
  obtain ⟨s, hs, h⟩ := Option.map_eq_some_iff.1 hlocks
  simp only [Prod.mk.injEq] at h
  obtain ⟨h1, h2, h3, h4, h5, h6, h7⟩ := h
  refine ⟨s, hs, fun hm => ?_⟩
  have := hm 1 2 1 2 h1 h2 h3 h4 (h5.trans h6.symm) h7
  exact absurd this (by decide)

/-! ## No leak -/

/-- A thread releases the lock that locked the mutex when it is its last one of the key, and its
other locks of the key before. -/
def LockerLast (s : LockState Thread Slot) : Action Thread Slot → Prop
  | .drop t v => (s.locks v).ownsLock = true →
    ((s.locks v).lockedMutex = true ↔ s.heldCount t (s.locks v).tableKey = 1)
  | .move t v w => v ≠ w → (s.locks w).ownsLock = true →
    ((s.locks w).lockedMutex = true ↔ s.heldCount t (s.locks w).tableKey = 1)
  | _ => True

instance (s : LockState Thread Slot) (a : Action Thread Slot) : Decidable (s.LockerLast a) :=
  match a with
  | .drop .. => by dsimp only [LockerLast]; infer_instance
  | .move .. => by dsimp only [LockerLast]; infer_instance
  | .request .. => isTrue trivial
  | .enter _ => isTrue trivial
  | .timeout _ => isTrue trivial

/-- The valid locks of thread `t` that locked the mutex `id` in this mode. -/
def lockers (s : LockState Thread Slot) (t : Thread) (id : Nat) (mode : TableLockMode) :
    Finset Slot :=
  s.slotsWith fun l => l.LockedMutex t id mode

/-- Who holds a mutex has a valid lock that locked it. -/
structure Accounted (s : LockState Thread Slot) : Prop where
  readers : ∀ id t, (s.mutexes id).readers.count t ≤ (s.lockers t id .shared).card
  writer : ∀ id t, (s.mutexes id).writer = some t → 0 < (s.lockers t id .exclusive).card

theorem accounted_empty : (empty : LockState Thread Slot).Accounted where
  readers _ _ := Nat.zero_le _
  writer _ _ h := by cases h

/-- A step that changes no mutex and no number of locks that locked one keeps it. -/
theorem Accounted.of_card (ha : s.Accounted) {s' : LockState Thread Slot}
    (hm : s'.mutexes = s.mutexes)
    (hl : ∀ t id mode, (s'.lockers t id mode).card = (s.lockers t id mode).card) :
    s'.Accounted where
  readers id t := by
    rw [hm, hl]
    exact ha.readers id t
  writer id t h := by
    rw [hm] at h
    rw [hl]
    exact ha.writer id t h

theorem lockers_drop (u : Thread) (id : Nat) (mode : TableLockMode) :
    (s.drop t v).lockers u id mode = (s.lockers u id mode).erase v :=
  slotsWith_drop _ (TableLock.not_lockedMutex_empty u id mode)

theorem Accounted.drop (ha : s.Accounted) (hs : s.Sound)
    (hd : (s.locks v).ownsLock = true → (s.locks v).acquirer = some t)
    (hlast : (s.locks v).ownsLock = true →
      ((s.locks v).lockedMutex = true ↔ s.heldCount t (s.locks v).tableKey = 1)) :
    (s.drop t v).Accounted := by
  rcases hs.mutexes_drop hd with ⟨hg, id, hid, hmutexes⟩ | ⟨hg, hmutexes⟩
  · have hacq := hd hg.1
    -- `v` locked this mutex, for its own thread and in its own mode
    have hkeep {u : Thread} {id' : Nat} {mode : TableLockMode}
        (h : ¬ (u = t ∧ id' = id ∧ mode = (s.locks v).mode)) :
        (s.drop t v).lockers u id' mode = s.lockers u id' mode := by
      rw [lockers_drop]
      refine Finset.erase_eq_of_notMem fun hmem => h ?_
      obtain ⟨-, -, -, hu, hi, hmode⟩ := mem_slotsWith.1 hmem
      rw [hacq, Option.some_inj] at hu
      rw [hid, Option.some_inj] at hi
      exact ⟨hu.symm, hi.symm, hmode.symm⟩
    have hv : v ∈ s.lockers t id (s.locks v).mode := by
      refine mem_slotsWith.2 ⟨?_, hg.1, hg.2.1, hacq, hid, rfl⟩
      exact (mem_slotsWith.1 (hs.mem_validSlots ⟨hg.1, hacq, rfl⟩)).1
    constructor
    · intro id' u
      rw [hmutexes]
      by_cases hi : id' = id
      · subst hi
        rw [Function.update_self]
        cases hmode : (s.locks v).mode with
        | shared =>
          by_cases hu : u = t
          · subst hu
            rw [lockers_drop, Finset.card_erase_of_mem (hmode ▸ hv), givenBack,
              SharedMutex.unlockShared, List.count_erase_self]
            exact Nat.sub_le_sub_right (ha.readers id' u) 1
          · rw [hkeep fun h => hu h.1, givenBack, SharedMutex.unlockShared,
              List.count_erase_of_ne hu]
            exact ha.readers id' u
        | exclusive =>
          rw [hkeep fun h => by rw [hmode] at h; cases h.2.2]
          exact ha.readers id' u
      · rw [Function.update_of_ne hi, hkeep fun h => hi h.2.1]
        exact ha.readers id' u
    · intro id' u hw
      rw [hmutexes] at hw
      by_cases hi : id' = id
      · subst hi
        rw [Function.update_self] at hw
        cases hmode : (s.locks v).mode with
        | shared =>
          rw [hkeep fun h => by rw [hmode] at h; cases h.2.2]
          rw [hmode] at hw
          exact ha.writer id' u hw
        | exclusive =>
          rw [hmode] at hw
          cases hw
      · rw [Function.update_of_ne hi] at hw
        rw [hkeep fun h => hi h.2.1]
        exact ha.writer id' u hw
  · refine ha.of_card hmutexes fun u id mode => ?_
    rw [lockers_drop, Finset.erase_eq_of_notMem]
    intro hmem
    obtain ⟨-, ho, hl, -⟩ := mem_slotsWith.1 hmem
    exact hg ⟨ho, hl, (hlast ho).1 hl⟩

theorem Accounted.move (ha : s.Accounted) (hs : s.Sound) (hw : ¬ s.Constructing w)
    (hd : v ≠ w → (s.locks w).ownsLock = true → (s.locks w).acquirer = some t)
    (hlast : v ≠ w → (s.locks w).ownsLock = true →
      ((s.locks w).lockedMutex = true ↔ s.heldCount t (s.locks w).tableKey = 1)) :
    (s.move t v w).Accounted := by
  by_cases hne : v = w
  · rwa [LockState.move, if_pos hne]
  · rw [move_eq hne]
    have hempty : (s.drop t w).locks w = {} := by rw [locks_drop, if_pos rfl]
    refine (ha.drop hs (hd hne) (hlast hne)).of_card rfl fun u id mode => ?_
    exact (hs.drop hw (hd hne)).card_transfer _ (TableLock.not_lockedMutex_empty u id mode) hempty

theorem Accounted.request (ha : s.Accounted) (hs : s.Sound) {mode : TableLockMode} {timed : Bool}
    (hv : (s.locks v).mutex = none) : (s.request t v key mode timed).Accounted := by
  obtain ⟨hlocks, hslots, hmutexes, -⟩ := mutexForTable_frame (s := s) key
  refine ha.of_card hmutexes fun u id mode' => ?_
  have hsame : (s.mutexForTable key).2.lockers u id mode' = s.lockers u id mode' := by
    simp only [lockers, slotsWith, hlocks, hslots]
  rw [← hsame]
  have howns : ((s.mutexForTable key).2.locks v).ownsLock = false := by
    rw [hlocks]
    exact hs.not_owns hv
  exact congrArg Finset.card (slotsWith_construct _ (fun l h => h.1) howns)

/-- A constructor call that locked the mutex counts for its thread, its mutex and its mode. -/
theorem Sound.lockers_obtained (hs : s.Sound) {c : LockCall Slot} (hc : s.calls t = some c)
    {id : Nat} (hid : (s.locks c.slot).mutex = some id) (locked : Bool) (u : Thread) (id' : Nat)
    (mode : TableLockMode) :
    ((s.obtained t c.slot locked).lockers u id' mode).card =
      (s.lockers u id' mode).card +
        if locked = true ∧ u = t ∧ id' = id ∧ mode = (s.locks c.slot).mode then 1 else 0 := by
  obtain ⟨hacq, -, howns⟩ := hs.building t c hc
  have hnot : c.slot ∉ s.slotsWith fun l => l.LockedMutex u id' mode := by
    intro hmem
    have := (mem_slotsWith.1 hmem).2.1
    rw [howns] at this
    cases this
  have hiff : TableLock.LockedMutex { s.locks c.slot with ownsLock := true, lockedMutex := locked }
      u id' mode ↔ locked = true ∧ u = t ∧ id' = id ∧ mode = (s.locks c.slot).mode := by
    simp only [TableLock.LockedMutex, hacq, hid, Option.some_inj, true_and, eq_comm]
  rw [lockers, slotsWith_obtained]
  by_cases h : locked = true ∧ u = t ∧ id' = id ∧ mode = (s.locks c.slot).mode
  · rw [if_pos (hiff.2 h), if_pos h, Finset.card_insert_of_notMem hnot, lockers]
  · rw [if_neg (hiff.not.2 h), if_neg h, Finset.erase_eq_of_notMem hnot, lockers, Nat.add_zero]

theorem Accounted.enter (ha : s.Accounted) (hs : s.Sound) {c : LockCall Slot}
    {s' : LockState Thread Slot} (hc : s.calls t = some c) (h : s.enter t c.slot = some s') :
    s'.Accounted := by
  obtain ⟨-, hmutex, -⟩ := hs.building t c hc
  obtain ⟨id, hid⟩ := Option.ne_none_iff_exists'.1 hmutex
  rcases enter_cases h with ⟨-, id', m, hid', hl, rfl⟩ | ⟨-, rfl⟩
  · rw [hid, Option.some_inj] at hid'
    subst hid'
    have hcard := (hs.setMutex id m).lockers_obtained hc hid true
    have hmutexes : ((s.setMutex id m).obtained t c.slot true).mutexes =
        Function.update s.mutexes id m := rfl
    constructor
    · intro id' u
      rw [hcard, hmutexes]
      refine le_trans ?_ (Nat.add_le_add_right (ha.readers id' u) _)
      by_cases hi : id' = id
      · subst hi
        rw [Function.update_self]
        rcases hl with ⟨hmode, hl⟩ | ⟨-, hl⟩
        · obtain ⟨-, rfl⟩ := SharedMutex.lockShared_eq_some.1 hl
          rw [List.count_cons, setMutex_locks, hmode]
          by_cases hu : u = t
          · subst hu
            simp
          · simp [Ne.symm hu]
        · obtain ⟨-, rfl⟩ := SharedMutex.lock_eq_some.1 hl
          exact Nat.le_add_right _ _
      · rw [Function.update_of_ne hi]
        exact Nat.le_add_right _ _
    · intro id' u hw
      rw [hmutexes] at hw
      rw [hcard]
      by_cases hi : id' = id
      · subst hi
        rw [Function.update_self] at hw
        rcases hl with ⟨-, hl⟩ | ⟨hmode, hl⟩
        · obtain ⟨hnone, rfl⟩ := SharedMutex.lockShared_eq_some.1 hl
          rw [show (s.mutexes id').writer = some u from hw] at hnone
          cases hnone
        · obtain ⟨-, rfl⟩ := SharedMutex.lock_eq_some.1 hl
          rw [Option.some_inj] at hw
          rw [if_pos ⟨rfl, hw.symm, rfl, hmode.symm⟩]
          exact Nat.succ_pos _
      · rw [Function.update_of_ne hi] at hw
        exact Nat.add_pos_left (ha.writer id' u hw) _
  · refine ha.of_card rfl fun u id' mode => ?_
    rw [hs.lockers_obtained hc hid, if_neg fun h => Bool.noConfusion h.1, Nat.add_zero]

theorem Accounted.next (ha : s.Accounted) (hs : s.Sound) {a : Action Thread Slot}
    {s' : LockState Thread Slot} (hd : s.Disciplined a) (hlast : s.LockerLast a)
    (h : s.next a = some s') : s'.Accounted := by
  rcases next_cases h with ⟨t, v, key, mode, timed, rfl, -, hv, rfl⟩ | ⟨t, c, rfl, hc, h⟩ |
    ⟨t, c, rfl, hc, -, h0, rfl⟩ | ⟨t, v, rfl, -, hv, rfl⟩ | ⟨t, v, w, rfl, -, hv, hw, rfl⟩
  · exact ha.request hs hv
  · exact ha.enter hs hc h
  · exact ⟨ha.readers, ha.writer⟩
  · exact ha.drop hs hd hlast
  · exact ha.move hs hw hd hlast

/-- A step that leaks no lock: it releases only what its thread acquired, does not nest too deep,
and releases the lock that locked the mutex last. -/
def KeepsCount (s : LockState Thread Slot) (a : Action Thread Slot) : Prop :=
  s.Disciplined a ∧ s.LockerLast a

instance (s : LockState Thread Slot) (a : Action Thread Slot) : Decidable (s.KeepsCount a) :=
  inferInstanceAs (Decidable (_ ∧ _))

theorem accounted_of_reaches (h : (lockMachine Thread Slot).Reaches KeepsCount s) :
    s.Sound ∧ s.Accounted := by
  refine h.invariant (I := fun s => s.Sound ∧ s.Accounted)
    ⟨Sound.sound_empty, accounted_empty⟩ ?_
  intro s s' a hs hk hnext
  exact ⟨hs.1.next hk.1 hnext, hs.2.next hs.1 hk.1 hk.2 hnext⟩

/-- Once no valid lock of a key is left, the mutexes of the key that are still there (the one in
the table and the ones that locks refer to) are held by nobody, and no thread counts a lock. -/
def LeaksNothing (s : LockState Thread Slot) : Prop :=
  ∀ key, (∀ v, (s.locks v).tableKey = key → (s.locks v).ownsLock = false) →
    (∀ t, s.heldCount t key = 0) ∧
    (∀ id, s.tableLocks key = some id → (s.mutexes id).Free) ∧
    (∀ v id, (s.locks v).tableKey = key → (s.locks v).mutex = some id → (s.mutexes id).Free)

theorem Accounted.leaksNothing (ha : s.Accounted) (hs : s.Sound) : s.LeaksNothing := by
  intro key hkey
  have hlockers {id : Nat} (hid : s.tableLocks key = some id) (t : Thread)
      (mode : TableLockMode) : (s.lockers t id mode).card = 0 := by
    rw [Finset.card_eq_zero, Finset.eq_empty_iff_forall_notMem]
    intro v hv
    obtain ⟨-, ho, -, -, hi, -⟩ := mem_slotsWith.1 hv
    have hvkey := hs.oneKey _ _ id (hs.table v id hi) hid
    rw [hkey v hvkey] at ho
    cases ho
  have hfree {id : Nat} (hid : s.tableLocks key = some id) : (s.mutexes id).Free := by
    refine ⟨List.eq_nil_iff_forall_not_mem.2 fun t ht => ?_, ?_⟩
    · have hle := ha.readers id t
      rw [hlockers hid, Nat.le_zero, List.count_eq_zero] at hle
      exact hle ht
    · by_contra hne
      obtain ⟨t, ht⟩ := Option.ne_none_iff_exists'.1 hne
      have hpos := ha.writer id t ht
      rw [hlockers hid] at hpos
      exact lt_irrefl 0 hpos
  refine ⟨fun t => ?_, fun id hid => hfree hid, fun v id hv hid => hfree (hv ▸ hs.table v id hid)⟩
  rw [hs.count, Finset.card_eq_zero, Finset.eq_empty_iff_forall_notMem]
  intro v hv
  obtain ⟨-, ho, -, hvkey⟩ := mem_slotsWith.1 hv
  rw [hkey v hvkey] at ho
  cases ho

/-- No lock is leaked in any state that a run of such steps reaches. -/
theorem leaksNothing_of_reaches (h : (lockMachine Thread Slot).Reaches KeepsCount s) :
    s.LeaksNothing :=
  (accounted_of_reaches h).2.leaksNothing (accounted_of_reaches h).1

/-- A thread takes a lock, nests another in it, and releases the inner one first. -/
theorem leaksNothing_of_reaches_innerFirst :
    ∃ s, (lockMachine Nat Nat).runWhile KeepsCount .empty [.request 1 0 [] .shared false,
      .enter 1, .request 1 1 [] .exclusive false, .enter 1, .drop 1 1, .drop 1 0] = some s ∧
      s.LeaksNothing := by
  refine ⟨_, rfl, leaksNothing_of_reaches ?_⟩
  exact Machine.Reaches.init.runWhile (m := lockMachine Nat Nat) (l := [
    .request 1 0 [] .shared false, .enter 1, .request 1 1 [] .exclusive false, .enter 1,
    .drop 1 1, .drop 1 0]) rfl

/-- Thread 1 nests two exclusive locks and releases the outer one first, while thread 2 keeps the
lock object of a timed call that failed. -/
def outerFirst : List (Action Nat Nat) :=
  [.request 1 0 [] .exclusive false, .enter 1, .request 1 1 [] .exclusive false, .enter 1,
    .request 2 2 [] .exclusive true, .timeout 2, .drop 1 0, .drop 1 1]

theorem outerFirst_leaks :
    ∃ s, (lockMachine Nat Nat).run outerFirst = some s ∧ ¬ s.LeaksNothing := by
  have hrun : ((lockMachine Nat Nat).runWhile Disciplined .empty outerFirst).map
      (fun s => (decide (∀ v ∈ s.slots, (s.locks v).ownsLock = false), s.tableLocks [],
        (s.mutexes 0).writer)) = some (true, some 0, some 1) := by rfl
  obtain ⟨s, hs, h⟩ := Option.map_eq_some_iff.1 hrun
  simp only [Prod.mk.injEq, decide_eq_true_eq] at h
  have hsound : s.Sound :=
    sound_of_reaches (Machine.Reaches.init.runWhile (m := lockMachine Nat Nat) hs)
  have hnone (v : Nat) : (s.locks v).ownsLock = false := by
    by_cases hv : v ∈ s.slots
    · exact h.1 v hv
    · rw [hsound.slots v hv]
  refine ⟨s, Machine.runFrom_of_runWhile hs, fun hl => ?_⟩
  have hfree := (hl [] fun v _ => hnone v).2.1 0 h.2.1
  rw [SharedMutex.Free, h.2.2] at hfree
  cases hfree.2

end LockState

end ScratchDb
