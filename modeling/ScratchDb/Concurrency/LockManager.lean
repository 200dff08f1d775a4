import Mathlib.Data.Finset.Filter
import Mathlib.Data.Finset.Insert
import Mathlib.Logic.Function.Basic
import Mathlib.Tactic.Simps.Basic
import ScratchDb.Lib.Machine
import ScratchDb.Lib.SharedMutex
import ScratchDb.Storage.WalRecord

/-!
# The lock manager

Model of `src/concurrency/lock_manager.cpp`: a mutex for each table key that
lives as long as some `TableLock` refers to it, and a re-entrancy count for
each thread and key that decides who locks and unlocks it.

A variable of type `TableLock` is a slot. The two halves of a constructor, the
call of `mutex_for_table` and the lock of what it returned, are two actions,
because another thread may run in between and while the constructor waits.
-/

namespace ScratchDb

inductive TableLockMode where
  | shared
  | exclusive
deriving DecidableEq, Repr

/-- A `TableLock`; without arguments the one of its default constructor. -/
structure TableLock (Thread : Type) where
  tableKey : Bytes := []
  mutex : Option Nat := none
  mode : TableLockMode := .shared
  ownsLock : Bool := false
  lockedMutex : Bool := false
  /-- The thread whose constructor call made it (not in the source). -/
  acquirer : Option Thread := none

/-- The constructor call a thread is in: the variable, and whether the call has a timeout. -/
structure LockCall (Slot : Type) where
  slot : Slot
  timed : Bool

/-- The locks of a process. -/
structure LockState (Thread Slot : Type) where
  /-- `table_locks_`, the mutex that each weak pointer was made for -/
  tableLocks : Bytes → Option Nat
  /-- the number of mutexes made so far -/
  mutexCount : Nat
  mutexes : Nat → SharedMutex Thread
  /-- `held_table_locks` of each thread -/
  heldTableLocks : Thread → Bytes → Option Nat
  locks : Slot → TableLock Thread
  /-- the slots used so far -/
  slots : Finset Slot
  calls : Thread → Option (LockCall Slot)

namespace LockState

variable {Thread Slot : Type} [DecidableEq Thread] [DecidableEq Slot]

def empty : LockState Thread Slot where
  tableLocks _ := none
  mutexCount := 0
  mutexes _ := {}
  heldTableLocks _ _ := none
  locks _ := {}
  slots := ∅
  calls _ := none

/-- The re-entrancy count of a thread; `operator[]` makes a missing one 0. -/
def heldCount (s : LockState Thread Slot) (t : Thread) (key : Bytes) : Nat :=
  (s.heldTableLocks t key).getD 0

@[simps]
def setHeld (s : LockState Thread Slot) (t : Thread) (key : Bytes) (count : Option Nat) :
    LockState Thread Slot :=
  { s with heldTableLocks :=
      Function.update s.heldTableLocks t (Function.update (s.heldTableLocks t) key count) }

@[simps]
def setMutex (s : LockState Thread Slot) (id : Nat) (m : SharedMutex Thread) :
    LockState Thread Slot :=
  { s with mutexes := Function.update s.mutexes id m }

@[simps]
def setLock (s : LockState Thread Slot) (v : Slot) (l : TableLock Thread) :
    LockState Thread Slot :=
  { s with locks := Function.update s.locks v l, slots := insert v s.slots }

@[simps]
def setCall (s : LockState Thread Slot) (t : Thread) (c : Option (LockCall Slot)) :
    LockState Thread Slot :=
  { s with calls := Function.update s.calls t c }

/-- No shared pointer to the mutex is left. -/
def Expired (s : LockState Thread Slot) (id : Nat) : Prop :=
  ∀ v ∈ s.slots, (s.locks v).mutex ≠ some id

instance (s : LockState Thread Slot) (id : Nat) : Decidable (s.Expired id) :=
  inferInstanceAs (Decidable (∀ v ∈ s.slots, _))

def newMutex (s : LockState Thread Slot) (key : Bytes) : Nat × LockState Thread Slot :=
  (s.mutexCount,
    { s with
      tableLocks := Function.update s.tableLocks key (some s.mutexCount)
      mutexCount := s.mutexCount + 1 })

def mutexForTable (s : LockState Thread Slot) (key : Bytes) : Nat × LockState Thread Slot :=
  match s.tableLocks key with
  | some id => if s.Expired id then s.newMutex key else (id, s)
  | none => s.newMutex key

/-- A constructor call, up to the point where it has to take the mutex. -/
def construct (s : LockState Thread Slot) (t : Thread) (v : Slot) (key : Bytes) (id : Nat)
    (mode : TableLockMode) (timed : Bool) : LockState Thread Slot :=
  ((s.setLock v { tableKey := key, mutex := some id, mode, acquirer := some t }).setHeld t key
    (some (s.heldCount t key))).setCall t (some { slot := v, timed })

/-- A call of `lock_table_…` or `try_lock_table_…_for` by thread `t` for the variable `v`, up to
the point where the constructor has to take the mutex. -/
def request (s : LockState Thread Slot) (t : Thread) (v : Slot) (key : Bytes)
    (mode : TableLockMode) (timed : Bool) : LockState Thread Slot :=
  let (id, s) := s.mutexForTable key
  s.construct t v key id mode timed

def lockMutex (s : LockState Thread Slot) (t : Thread) (id : Nat) :
    TableLockMode → Option (LockState Thread Slot)
  | .shared => ((s.mutexes id).lockShared t).map (s.setMutex id)
  | .exclusive => ((s.mutexes id).lock t).map (s.setMutex id)

def unlockMutex (s : LockState Thread Slot) (t : Thread) (id : Nat) :
    TableLockMode → LockState Thread Slot
  | .shared => s.setMutex id ((s.mutexes id).unlockShared t)
  | .exclusive => s.setMutex id (s.mutexes id).unlock

/-- The end of a constructor call that obtains the lock: the count, a `uint16_t`, goes up. -/
def obtained (s : LockState Thread Slot) (t : Thread) (v : Slot) (lockedMutex : Bool) :
    LockState Thread Slot :=
  let l := s.locks v
  ((s.setHeld t l.tableKey (some ((s.heldCount t l.tableKey + 1) % 2 ^ 16))).setLock v
    { l with ownsLock := true, lockedMutex }).setCall t none

/-- The rest of a constructor call that obtains the lock; `none` while it has to wait. -/
def enter (s : LockState Thread Slot) (t : Thread) (v : Slot) : Option (LockState Thread Slot) :=
  let l := s.locks v
  if s.heldCount t l.tableKey = 0 then
    l.mutex.bind fun id => (s.lockMutex t id l.mode).map fun s => s.obtained t v true
  else
    some (s.obtained t v false)

/-- The rest of a constructor call whose timeout runs out. -/
def timeout (s : LockState Thread Slot) (t : Thread) (v : Slot) : LockState Thread Slot :=
  (s.setHeld t (s.locks v).tableKey none).setCall t none

/-- `unlock`, by thread `t`, of the lock `l`, up to what it writes to `l` itself. -/
def unlock (s : LockState Thread Slot) (t : Thread) (l : TableLock Thread) :
    LockState Thread Slot :=
  match l.ownsLock, l.mutex with
  | true, some id =>
    match s.heldTableLocks t l.tableKey with
    | some count =>
      let count := (count + (2 ^ 16 - 1)) % 2 ^ 16
      if count = 0 then
        let s := s.setHeld t l.tableKey none
        if l.lockedMutex then s.unlockMutex t id l.mode else s
      else
        s.setHeld t l.tableKey (some count)
    | none => s
  | _, _ => s

/-- The destructor of the lock in `v`, run by thread `t`. -/
def drop (s : LockState Thread Slot) (t : Thread) (v : Slot) : LockState Thread Slot :=
  (s.unlock t (s.locks v)).setLock v {}

/-- `w = std::move(v)`, run by thread `t`. Where `w` is empty this is also the move constructor:
there is nothing to unlock. -/
def move (s : LockState Thread Slot) (t : Thread) (v w : Slot) : LockState Thread Slot :=
  if v = w then s
  else ((s.unlock t (s.locks w)).setLock w (s.locks v)).setLock v {}

/-! ## Runs -/

/-- What a thread can do next. -/
inductive Action (Thread Slot : Type) where
  | request (t : Thread) (v : Slot) (key : Bytes) (mode : TableLockMode) (timed : Bool)
  | enter (t : Thread)
  | timeout (t : Thread)
  | drop (t : Thread) (v : Slot)
  | move (t : Thread) (v w : Slot)

/-- `v` is the variable of a constructor call that has not returned. -/
def Constructing (s : LockState Thread Slot) (v : Slot) : Prop :=
  match (s.locks v).acquirer with
  | some t => (s.calls t).map LockCall.slot = some v
  | none => False

instance (s : LockState Thread Slot) (v : Slot) : Decidable (s.Constructing v) := by
  unfold Constructing
  split <;> infer_instance

/-- A thread in a constructor call does nothing else, and only that thread can name the variable
it constructs. -/
def next (s : LockState Thread Slot) : Action Thread Slot → Option (LockState Thread Slot)
  | .request t v key mode timed =>
    if (s.calls t).isNone ∧ (s.locks v).mutex.isNone then some (s.request t v key mode timed)
    else none
  | .enter t => (s.calls t).bind fun c => s.enter t c.slot
  | .timeout t =>
    (s.calls t).bind fun c =>
      if c.timed ∧ s.heldCount t (s.locks c.slot).tableKey = 0 then some (s.timeout t c.slot)
      else none
  | .drop t v =>
    if (s.calls t).isNone ∧ ¬ s.Constructing v then some (s.drop t v) else none
  | .move t v w =>
    if (s.calls t).isNone ∧ ¬ s.Constructing v ∧ ¬ s.Constructing w then some (s.move t v w)
    else none

end LockState

/-- The threads of a process, at any of their calls to the lock manager. -/
def lockMachine (Thread Slot : Type) [DecidableEq Thread] [DecidableEq Slot] :
    Machine (LockState Thread Slot) (LockState.Action Thread Slot) where
  init := .empty
  next := LockState.next

end ScratchDb
