import ScratchDb.Sessions.TableLocks

/-!
# Strict two-phase locking

What `acquire_transaction_lock` has granted a transaction stays locked until
the transaction is over, where every session keeps to one thread of its own and
no lock is upgraded.
-/

set_option linter.unusedSectionVars false

namespace ScratchDb

namespace LockSlot

variable {Session : Type}

def owner : LockSlot Session → Session
  | .active d _ => d
  | .attempt d => d
  | .statement d _ => d

end LockSlot

namespace Sessions

variable {Session Thread : Type} [DecidableEq Session] [DecidableEq Thread]
  {s s' : Sessions Session Thread} {home : Session → Thread} {d e : Session} {t : Thread}
  {a : TableAccess} {v w : LockSlot Session} {key : Bytes}

/-! ## What the actions of the lock manager change -/

/-- The lock manager's invariants. -/
def LocksOk (s : Sessions Session Thread) : Prop := s.locks.Sound ∧ s.locks.Backed

theorem LocksOk.lock {x : LockState.Action Thread (LockSlot Session)} (hs : s.LocksOk)
    (hx : s.locks.KeepsModes x) (h : s.lock x = some s') : s'.LocksOk := by
  obtain ⟨locks, hlocks, rfl⟩ := Option.map_eq_some_iff.1 h
  exact ⟨hs.1.next hx.1 hlocks, hs.2.next hs.1 hx.1 hx.2 hlocks⟩

theorem LocksOk.set {db : SessionLocks Thread} (hs : s.LocksOk) : (s.set d db).LocksOk := hs

theorem keepsModes_request {mode : TableLockMode} {timed : Bool} :
    s.locks.KeepsModes (.request t v key mode timed) := ⟨trivial, trivial⟩

theorem keepsModes_timeout : s.locks.KeepsModes (.timeout t) := ⟨trivial, trivial⟩

theorem keepsModes_drop
    (h : (s.locks.locks v).ownsLock = true → (s.locks.locks v).acquirer = some t) :
    s.locks.KeepsModes (.drop t v) := ⟨h, trivial⟩

theorem keepsModes_move
    (h : (s.locks.locks w).ownsLock = true → (s.locks.locks w).acquirer = some t) :
    s.locks.KeepsModes (.move t v w) := ⟨fun _ => h, trivial⟩

theorem lock_request {mode : TableLockMode} {timed : Bool}
    (h : s.lock (.request t v key mode timed) = some s') :
    s'.session = s.session ∧
      s'.locks.calls = Function.update s.locks.calls t (some { slot := v, timed }) ∧
      ∃ id, s'.locks.locks = Function.update s.locks.locks v
        { tableKey := key, mutex := some id, mode, acquirer := some t } := by
  obtain ⟨locks, hlocks, rfl⟩ := Option.map_eq_some_iff.1 h
  rw [LockState.next, Option.ite_none_right_eq_some, Option.some_inj] at hlocks
  obtain ⟨hl, -, -, hc, -⟩ := LockState.mutexForTable_frame (s := s.locks) key
  rw [← hlocks.2]
  refine ⟨rfl, ?_, (s.locks.mutexForTable key).1, ?_⟩
  · rw [← hc]
    rfl
  · rw [← hl]
    rfl

theorem lock_drop (h : s.lock (.drop t v) = some s') :
    s'.session = s.session ∧ s'.locks.calls = s.locks.calls ∧
      s'.locks.locks = Function.update s.locks.locks v {} := by
  obtain ⟨locks, hlocks, rfl⟩ := Option.map_eq_some_iff.1 h
  rw [LockState.next, Option.ite_none_right_eq_some, Option.some_inj] at hlocks
  rw [← hlocks.2]
  refine ⟨rfl, LockState.unlock_calls _, ?_⟩
  funext w
  simp [LockState.drop]

theorem lock_enter {c : LockCall (LockSlot Session)} (hc : s.locks.calls t = some c)
    (h : s.lock (.enter t) = some s') :
    s'.session = s.session ∧ s'.locks.calls = Function.update s.locks.calls t none ∧
      ∃ locked, s'.locks.locks = Function.update s.locks.locks c.slot
        { s.locks.locks c.slot with ownsLock := true, lockedMutex := locked } := by
  obtain ⟨locks, hlocks, rfl⟩ := Option.map_eq_some_iff.1 h
  rw [LockState.next, hc, Option.bind_some] at hlocks
  rcases LockState.enter_cases hlocks with ⟨-, id, m, -, -, rfl⟩ | ⟨-, rfl⟩
  · exact ⟨rfl, rfl, true, rfl⟩
  · exact ⟨rfl, rfl, false, rfl⟩

theorem lock_timeout (h : s.lock (.timeout t) = some s') :
    s'.session = s.session ∧ s'.locks.calls = Function.update s.locks.calls t none ∧
      s'.locks.locks = s.locks.locks := by
  obtain ⟨locks, hlocks, rfl⟩ := Option.map_eq_some_iff.1 h
  obtain ⟨c, -, hlocks⟩ := Option.bind_eq_some_iff.1 hlocks
  rw [Option.ite_none_right_eq_some, Option.some_inj] at hlocks
  rw [← hlocks.2]
  exact ⟨rfl, rfl, rfl⟩

theorem lock_move (hne : v ≠ w) (h : s.lock (.move t v w) = some s') :
    s'.session = s.session ∧ s'.locks.calls = s.locks.calls ∧
      s'.locks.locks =
        Function.update (Function.update s.locks.locks w (s.locks.locks v)) v {} := by
  obtain ⟨locks, hlocks, rfl⟩ := Option.map_eq_some_iff.1 h
  rw [LockState.next, Option.ite_none_right_eq_some, Option.some_inj] at hlocks
  rw [← hlocks.2, LockState.move, if_neg hne]
  refine ⟨rfl, LockState.unlock_calls _, ?_⟩
  change Function.update (Function.update (s.locks.unlock t _).locks w _) v {} = _
  rw [LockState.unlock_locks]

/-! ## What a session does to the others -/

/-- Only session `d`, its locks and the calls of its thread may change. -/
structure Local (home : Session → Thread) (d : Session) (s s' : Sessions Session Thread) :
    Prop where
  session : ∀ e, e ≠ d → s'.session e = s.session e
  locks : ∀ v : LockSlot Session, v.owner ≠ d → s'.locks.locks v = s.locks.locks v
  calls : ∀ t, t ≠ home d → s'.locks.calls t = s.locks.calls t

theorem Local.refl : Local home d s s := ⟨fun _ _ => rfl, fun _ _ => rfl, fun _ _ => rfl⟩

theorem Local.set {db : SessionLocks Thread} (h : Local home d s s') :
    Local home d s (s'.set d db) where
  session e he := by
    change Function.update s'.session d db e = s.session e
    rw [Function.update_of_ne he]
    exact h.session e he
  locks := h.locks
  calls := h.calls

theorem Local.trans {s'' : Sessions Session Thread} (h : Local home d s s')
    (h' : Local home d s' s'') : Local home d s s'' where
  session e he := (h'.session e he).trans (h.session e he)
  locks v hv := (h'.locks v hv).trans (h.locks v hv)
  calls t ht := (h'.calls t ht).trans (h.calls t ht)

/-- An action of the lock manager for the thread and the variables of session `d`. -/
theorem local_of_update {l : TableLock Thread} {c : Option (LockCall (LockSlot Session))}
    (hsession : s'.session = s.session)
    (hcalls : s'.locks.calls = Function.update s.locks.calls (home d) c)
    (hlocks : s'.locks.locks = Function.update s.locks.locks v l) (hv : v.owner = d) :
    Local home d s s' where
  session e _ := by rw [hsession]
  locks w hw := by
    rw [hlocks, Function.update_of_ne]
    rintro rfl
    exact hw hv
  calls t ht := by rw [hcalls, Function.update_of_ne ht]

/-! ## The invariant of a session -/

/-- A valid lock of the table and the mode that `a` asks for. -/
def Grants (l : TableLock Thread) (a : TableAccess) : Prop :=
  l.ownsLock = true ∧ l.tableKey = a.key ∧ l.mode = a.mode

/-- The statements that run and write a table have a lock for it: the transaction's, or one of
their own in the variable for their depth. -/
def Covered (s : Sessions Session Thread) (d : Session) : List TableAccess → Prop
  | [] => True
  | a :: outer =>
    (a.mode = .exclusive → (s.session d).activeTableLocks a.key = some .exclusive ∨
      Grants (s.locks.locks (.statement d outer.length)) a) ∧ Covered s d outer

/-- What is true where session `d` stands in its lock functions. -/
def StageOk (home : Session → Thread) (s : Sessions Session Thread) (d : Session) :
    LockStage Thread → Prop
  | .outside => True
  | .wantsTransactionLock t a =>
    t = home d ∧ (s.session d).inTransaction = true ∧
      (s.session d).activeTableLocks a.key = none
  | .triesTransactionLock t a =>
    t = home d ∧ (s.session d).inTransaction = true ∧
      (s.session d).activeTableLocks a.key = none ∧
      s.locks.calls t = some { slot := .attempt d, timed := true } ∧
      (s.locks.locks (.attempt d)).tableKey = a.key ∧
      (s.locks.locks (.attempt d)).mode = a.mode
  | .wantsStatementLock t a =>
    t = home d ∧ (a.mode = .exclusive → ∀ mode,
      (s.session d).activeTableLocks a.key = some mode → mode = .exclusive)
  | .takesStatementLock t a =>
    t = home d ∧
      s.locks.calls t =
        some { slot := .statement d (s.session d).statements.length, timed := false } ∧
      (s.locks.locks (.statement d (s.session d).statements.length)).tableKey = a.key ∧
      (s.locks.locks (.statement d (s.session d).statements.length)).mode = a.mode
  | .releases t => t = home d ∧ (s.session d).statements = [] ∧ (s.session d).granted = []

/-- Session `d` is not in `active_locks_.clear()`. -/
def KeepsLocks (s : Sessions Session Thread) (d : Session) : Prop :=
  ∀ t, (s.session d).stage ≠ .releases t

structure SessionOk (home : Session → Thread) (s : Sessions Session Thread) (d : Session) :
    Prop where
  acquirer : ∀ v : LockSlot Session, v.owner = d → (s.locks.locks v).ownsLock = true →
    (s.locks.locks v).acquirer = some (home d)
  noTransaction : (s.session d).inTransaction = false →
    ∀ key, (s.session d).activeTableLocks key = none
  active : s.KeepsLocks d → ∀ key mode, (s.session d).activeTableLocks key = some mode →
    Grants (s.locks.locks (.active d key)) { key, mode }
  granted : ∀ a ∈ (s.session d).granted, ∃ mode,
    (s.session d).activeTableLocks a.key = some mode ∧ (mode = .exclusive ∨ a.mode = .shared)
  covered : s.Covered d (s.session d).statements
  stage : s.StageOk home d (s.session d).stage

theorem Covered.congr {l : List TableAccess} (h : s.Covered d l)
    (hactive : ∀ key, (s.session d).activeTableLocks key = some .exclusive →
      (s'.session d).activeTableLocks key = some .exclusive)
    (hlocks : ∀ i < l.length, s'.locks.locks (.statement d i) = s.locks.locks (.statement d i)) :
    s'.Covered d l := by
  induction l with
  | nil => trivial
  | cons a outer ih =>
    refine ⟨fun ha => (h.1 ha).imp (hactive a.key) fun hg => ?_, ih h.2 fun i hi =>
      hlocks i (hi.trans (Nat.lt_succ_self _))⟩
    rw [hlocks _ (Nat.lt_succ_self _)]
    exact hg

/-- A session's invariant depends on its own part of the state only. -/
theorem SessionOk.of_local (h : SessionOk home s e) (hne : e ≠ d) (hhome : home e ≠ home d)
    (hl : Local home d s s') : SessionOk home s' e := by
  have hsession := hl.session e hne
  have hslot (v : LockSlot Session) (hv : v.owner = e) : s'.locks.locks v = s.locks.locks v :=
    hl.locks v (hv ▸ hne)
  have hcalls := hl.calls (home e) hhome
  constructor
  · intro v hv ho
    rw [hslot v hv] at ho ⊢
    exact h.acquirer v hv ho
  · rw [hsession]
    exact h.noTransaction
  · intro hk key mode hm
    rw [hslot _ rfl]
    rw [KeepsLocks, hsession] at hk
    rw [hsession] at hm
    exact h.active hk key mode hm
  · rw [hsession]
    exact h.granted
  · rw [hsession]
    refine h.covered.congr (fun key hkey => ?_) fun i _ => hslot _ rfl
    rwa [hsession]
  · have hstage := h.stage
    rw [hsession]
    cases hst : (s.session e).stage with
    | outside => trivial
    | wantsTransactionLock t a => simpa only [hst, StageOk, hsession] using hstage
    | triesTransactionLock t a =>
      simp only [hst, StageOk] at hstage ⊢
      obtain ⟨rfl, hstage⟩ := hstage
      simpa only [hsession, hslot (.attempt e) rfl, hcalls, true_and] using hstage
    | wantsStatementLock t a => simpa only [hst, StageOk, hsession] using hstage
    | takesStatementLock t a =>
      simp only [hst, StageOk] at hstage ⊢
      obtain ⟨rfl, hstage⟩ := hstage
      simpa only [hsession, hslot (.statement e _) rfl, hcalls, true_and] using hstage
    | releases t => simpa only [hst, StageOk, hsession] using hstage

/-! ## Every step keeps the invariants -/

@[simp] theorem set_session (db : SessionLocks Thread) : (s.set d db).session d = db := by
  simp [Sessions.set]

@[simp] theorem set_locks (db : SessionLocks Thread) : (s.set d db).locks = s.locks := rfl

/-- The session that an action is of. -/
def Action.session : Action Session Thread → Session
  | .begin d => d
  | .call d _ _ => d
  | .attempt d => d
  | .obtain d => d
  | .timeout d => d
  | .statementLock d => d
  | .enter d => d
  | .write d _ => d
  | .abort d => d
  | .return d _ => d
  | .commit d _ => d
  | .rollback d _ => d
  | .release d _ => d
  | .finish d => d

/-- A step of a session that keeps to its thread, asks for no stronger lock than it has, and does
not nest too deep. -/
def KeepsTwoPhase (home : Session → Thread) (s : Sessions Session Thread) :
    Action Session Thread → Prop
  | .call d t a => t = home d ∧ ¬ (a.mode = .exclusive ∧ (s.session d).inTransaction = true ∧
      (s.session d).activeTableLocks a.key = some .shared)
  | .obtain d => s.locks.KeepsModes (.enter (home d))
  | .enter d => s.locks.KeepsModes (.enter (home d))
  | .return d t => t = home d
  | .commit d t => t = home d
  | .rollback d t => t = home d
  | _ => True

instance (s : Sessions Session Thread) (x : Action Session Thread) :
    Decidable (s.KeepsTwoPhase home x) := by
  cases x <;> unfold KeepsTwoPhase <;> infer_instance

/-- What a step of session `d` has to keep. -/
structure StepOk (home : Session → Thread) (d : Session) (s s' : Sessions Session Thread) :
    Prop where
  locks : s'.LocksOk
  others : Local home d s s'
  own : SessionOk home s' d

/-- A step that changes only the fields of the session. -/
theorem StepOk.set {db : SessionLocks Thread} (hl : s.LocksOk)
    (h : SessionOk home (s.set d db) d) : StepOk home d s (s.set d db) :=
  ⟨hl, Local.refl.set, h⟩

theorem step_begin (hl : s.LocksOk) (hs : SessionOk home s d) (h : s.next (.begin d) = some s') :
    StepOk home d s s' := by
  simp only [next] at h
  split at h
  case h_1 hstage =>
    rw [Option.ite_none_right_eq_some, Option.some_inj] at h
    obtain ⟨⟨hno, hnil⟩, rfl⟩ := h
    refine .set hl ⟨hs.acquirer, ?_, ?_, ?_, ?_, ?_⟩
    · intro htrue
      simp at htrue
    · intro _ key mode hm
      rw [set_session] at hm
      rw [hs.noTransaction (by simpa using hno) key] at hm
      cases hm
    · intro a ha
      rw [set_session] at ha ⊢
      exact hs.granted a ha
    · rw [set_session, hnil]
      trivial
    · rw [set_session, hstage]
      trivial
  case h_2 => cases h

theorem keepsLocks_of_stage {st : LockStage Thread} (h : (s.session d).stage = st)
    (hst : ∀ t, st ≠ .releases t) : s.KeepsLocks d := fun t ht => hst t (h ▸ ht)

/-- Only the stage of the session changes, and what it has been granted. -/
theorem SessionOk.setStage (hs : SessionOk home s d) (hk : s.KeepsLocks d)
    {st : LockStage Thread} {granted : List TableAccess}
    (hgranted : ∀ a ∈ granted, ∃ mode, (s.session d).activeTableLocks a.key = some mode ∧
      (mode = .exclusive ∨ a.mode = .shared))
    (hst : (s.set d { s.session d with stage := st, granted }).StageOk home d st) :
    SessionOk home (s.set d { s.session d with stage := st, granted }) d where
  acquirer := hs.acquirer
  noTransaction := by
    rw [set_session]
    exact hs.noTransaction
  active := by
    rw [set_session]
    exact fun _ => hs.active hk
  granted := by
    rw [set_session]
    exact hgranted
  covered := by
    rw [set_session]
    exact hs.covered.congr (by rw [set_session]; exact fun _ h => h) fun _ _ => rfl
  stage := by
    rw [set_session]
    exact hst

theorem step_call (hl : s.LocksOk) (hs : SessionOk home s d)
    (hc : s.KeepsTwoPhase home (.call d t a)) (h : s.next (.call d t a) = some s') :
    StepOk home d s s' := by
  obtain ⟨rfl, hup⟩ := hc
  simp only [next] at h
  split at h
  case h_2 => cases h
  case h_1 hstage =>
    have hk : s.KeepsLocks d := keepsLocks_of_stage hstage fun _ => by simp
    rw [acquireTransactionLock] at h
    split at h
    case isTrue hno =>
      rw [Option.some_inj] at h
      subst h
      refine .set hl (hs.setStage hk hs.granted ⟨rfl, fun _ mode hm => ?_⟩)
      rw [set_session] at hm
      rw [hs.noTransaction (by simpa using hno)] at hm
      cases hm
    case isFalse hin =>
      split at h
      case isTrue =>
        rw [Option.some_inj] at h
        subst h
        exact ⟨hl, .refl, hs⟩
      case isFalse =>
        split at h
        case h_1 held hheld =>
          split at h
          case isTrue hstrong =>
            rw [Option.some_inj] at h
            subst h
            refine .set hl (hs.setStage hk ?_ ⟨rfl, fun ha mode hm => ?_⟩)
            · intro b hb
              rcases List.mem_cons.1 hb with rfl | hb
              · exact ⟨held, hheld, hstrong⟩
              · exact hs.granted b hb
            · rw [set_session] at hm
              rw [hheld, Option.some_inj] at hm
              rw [← hm]
              exact hstrong.resolve_right (by simp [ha])
          case isFalse hweak =>
            refine absurd ⟨?_, by simpa using hin, ?_⟩ hup
            · cases hm : a.mode with
              | shared => exact absurd (.inr hm) hweak
              | exclusive => rfl
            · cases held with
              | shared => exact hheld
              | exclusive => exact absurd (.inl rfl) hweak
        case h_2 hnone =>
          rw [Option.some_inj] at h
          subst h
          refine .set hl (hs.setStage hk hs.granted ⟨rfl, ?_, ?_⟩)
          · rw [set_session]
            simpa using hin
          · rw [set_session]
            exact hnone

/-- A variable of a lock that is being taken or was not obtained. -/
def IsScratch (s : Sessions Session Thread) (d : Session) (v : LockSlot Session) : Prop :=
  v = .attempt d ∨ v = .statement d (s.session d).statements.length

/-- Only the stage and a variable that no granted lock is in change. -/
theorem SessionOk.setScratch (hs : SessionOk home s d) (hk : s.KeepsLocks d)
    {s₁ : Sessions Session Thread} {l : TableLock Thread} {st : LockStage Thread}
    (hlocks : s₁.locks.locks = Function.update s.locks.locks v l) (hv : s.IsScratch d v)
    (hl : l.ownsLock = true → l.acquirer = some (home d))
    (hst : (s₁.set d { s.session d with stage := st }).StageOk home d st) :
    SessionOk home (s₁.set d { s.session d with stage := st }) d := by
  have hslot {w : LockSlot Session} (hw : w ≠ v) : s₁.locks.locks w = s.locks.locks w := by
    rw [hlocks, Function.update_of_ne hw]
  have hactive (key : Bytes) : LockSlot.active d key ≠ v := by
    rcases hv with rfl | rfl <;> simp
  constructor
  · intro w hw ho
    rw [set_locks] at ho ⊢
    by_cases hwv : w = v
    · rw [hwv, hlocks, Function.update_self] at ho ⊢
      exact hl ho
    · rw [hslot hwv] at ho ⊢
      exact hs.acquirer w hw ho
  · rw [set_session]
    exact hs.noTransaction
  · intro _ key mode hm
    rw [set_session] at hm
    rw [set_locks, hslot (hactive key)]
    exact hs.active hk key mode hm
  · rw [set_session]
    exact hs.granted
  · rw [set_session]
    refine hs.covered.congr (by rw [set_session]; exact fun _ h => h) fun i hi => ?_
    rw [set_locks, hslot]
    rcases hv with rfl | rfl
    · simp
    · intro h
      rw [LockSlot.statement.injEq] at h
      exact absurd h.2 hi.ne
  · rw [set_session]
    exact hst

theorem step_attempt (hl : s.LocksOk) (hs : SessionOk home s d)
    (h : s.next (.attempt d) = some s') : StepOk home d s s' := by
  simp only [next] at h
  split at h
  case h_2 => cases h
  case h_1 t a hstage =>
    have hst := hs.stage
    rw [hstage] at hst
    obtain ⟨rfl, hin, hnone⟩ := hst
    obtain ⟨s₁, hs₁, rfl⟩ := Option.map_eq_some_iff.1 h
    obtain ⟨hsession, hcalls, id, hlocks⟩ := lock_request hs₁
    have hk : s.KeepsLocks d := keepsLocks_of_stage hstage fun _ => by simp
    refine ⟨(hl.lock keepsModes_request hs₁).set,
      (local_of_update hsession hcalls hlocks rfl).set, ?_⟩
    rw [hsession]
    refine hs.setScratch hk hlocks (.inl rfl) (fun ho => Bool.noConfusion ho) ?_
    refine ⟨rfl, ?_, ?_, ?_, ?_, ?_⟩
    · rw [set_session]
      exact hin
    · rw [set_session]
      exact hnone
    · rw [set_locks, hcalls, Function.update_self]
    · rw [set_locks, hlocks, Function.update_self]
    · rw [set_locks, hlocks, Function.update_self]

theorem step_obtain (hl : s.LocksOk) (hs : SessionOk home s d)
    (hc : s.KeepsTwoPhase home (.obtain d)) (h : s.next (.obtain d) = some s') :
    StepOk home d s s' := by
  simp only [next] at h
  split at h
  case h_2 => cases h
  case h_1 t a hstage =>
    have hst := hs.stage
    rw [hstage] at hst
    obtain ⟨rfl, hin, hnone, hcall, hkey, hmode⟩ := hst
    obtain ⟨s₁, hs₁, h⟩ := Option.bind_eq_some_iff.1 h
    obtain ⟨s₂, hs₂, rfl⟩ := Option.map_eq_some_iff.1 h
    obtain ⟨hsession₁, hcalls₁, locked, hlocks₁⟩ := lock_enter hcall hs₁
    obtain ⟨hsession₂, hcalls₂, hlocks₂⟩ := lock_move (by simp) hs₂
    have hsession : s₂.session = s.session := hsession₂.trans hsession₁
    have hacq : (s.locks.locks (.attempt d)).acquirer = some (home d) :=
      (hl.1.building (home d) _ hcall).1
    -- the lock of the constructor call is now in `active_locks_`
    have hactive : s₂.locks.locks (.active d a.key) =
        { s.locks.locks (.attempt d) with ownsLock := true, lockedMutex := locked } := by
      rw [hlocks₂, Function.update_of_ne (by simp), Function.update_self, hlocks₁,
        Function.update_self]
    have hattempt : s₂.locks.locks (.attempt d) = {} := by rw [hlocks₂, Function.update_self]
    have hslot {v : LockSlot Session} (hv : v ≠ .attempt d) (hv' : v ≠ .active d a.key) :
        s₂.locks.locks v = s.locks.locks v := by
      rw [hlocks₂, Function.update_of_ne hv, Function.update_of_ne hv', hlocks₁,
        Function.update_of_ne hv]
    have hother {key : Bytes} (hk : key ≠ a.key) (f : Option TableLockMode) :
        Function.update (s.session d).activeTableLocks a.key f key =
          (s.session d).activeTableLocks key := Function.update_of_ne hk _ _
    refine ⟨LocksOk.set ?_, ?_, ?_⟩
    · refine (hl.lock hc hs₁).lock (keepsModes_move fun ho => ?_) hs₂
      rw [hlocks₁, Function.update_of_ne (by simp)] at ho ⊢
      exact hs.acquirer _ rfl ho
    · refine Local.set ⟨fun e _ => by rw [hsession], fun v hv => hslot ?_ ?_, fun u hu => ?_⟩
      · rintro rfl
        exact hv rfl
      · rintro rfl
        exact hv rfl
      · rw [hcalls₂, hcalls₁, Function.update_of_ne hu]
    · rw [hsession]
      refine ⟨?_, ?_, ?_, ?_, ?_, ?_⟩
      · intro v hv ho
        rw [set_locks] at ho ⊢
        by_cases h₁ : v = .attempt d
        · rw [h₁, hattempt] at ho
          cases ho
        · by_cases h₂ : v = .active d a.key
          · rw [h₂, hactive]
            exact hacq
          · rw [hslot h₁ h₂] at ho ⊢
            exact hs.acquirer v hv ho
      · rw [set_session]
        intro hno
        rw [show (s.session d).inTransaction = false from hno] at hin
        cases hin
      · intro _ key mode hm
        rw [set_session] at hm
        rw [set_locks]
        by_cases hk : key = a.key
        · subst hk
          simp only [Function.update_self, Option.some_inj] at hm
          rw [hactive]
          exact ⟨rfl, hkey, hmode.trans hm⟩
        · simp only [hother hk] at hm
          rw [hslot (by simp) (by simp [hk])]
          exact hs.active (keepsLocks_of_stage hstage fun _ => by simp) key mode hm
      · intro b hb
        rw [set_session] at hb ⊢
        rcases List.mem_cons.1 hb with rfl | hb
        · refine ⟨b.mode, Function.update_self _ _ _, ?_⟩
          cases b.mode with
          | shared => exact .inr rfl
          | exclusive => exact .inl rfl
        · obtain ⟨mode, hm, hstrong⟩ := hs.granted b hb
          have hk : b.key ≠ a.key := by
            rintro hk
            rw [hk, hnone] at hm
            cases hm
          exact ⟨mode, (hother hk _).trans hm, hstrong⟩
      · rw [set_session]
        refine hs.covered.congr (fun key hkey => ?_) fun i _ => ?_
        · have hk : key ≠ a.key := by
            rintro rfl
            rw [hnone] at hkey
            cases hkey
          rw [set_session]
          exact (hother hk _).trans hkey
        · rw [set_locks, hslot (by simp) (by simp)]
      · rw [set_session]
        refine ⟨rfl, fun ha mode hm => ?_⟩
        simp only [set_session, Function.update_self, Option.some_inj] at hm
        rw [← hm, ha]

theorem step_timeout (hl : s.LocksOk) (hs : SessionOk home s d)
    (h : s.next (.timeout d) = some s') : StepOk home d s s' := by
  simp only [next] at h
  split at h
  case h_2 => cases h
  case h_1 t a hstage =>
    have hst := hs.stage
    rw [hstage] at hst
    obtain ⟨rfl, -⟩ := hst
    obtain ⟨s₁, hs₁, h⟩ := Option.bind_eq_some_iff.1 h
    obtain ⟨s₂, hs₂, rfl⟩ := Option.map_eq_some_iff.1 h
    obtain ⟨hsession₁, hcalls₁, hlocks₁⟩ := lock_timeout hs₁
    obtain ⟨hsession₂, hcalls₂, hlocks₂⟩ := lock_drop hs₂
    have hsession : s₂.session = s.session := hsession₂.trans hsession₁
    rw [hlocks₁] at hlocks₂
    rw [hcalls₁] at hcalls₂
    have hk : s.KeepsLocks d := keepsLocks_of_stage hstage fun _ => by simp
    refine ⟨LocksOk.set ?_, (local_of_update hsession hcalls₂ hlocks₂ rfl).set, ?_⟩
    · refine (hl.lock keepsModes_timeout hs₁).lock (keepsModes_drop fun ho => ?_) hs₂
      rw [hlocks₁] at ho ⊢
      exact hs.acquirer _ rfl ho
    · rw [hsession]
      exact hs.setScratch hk hlocks₂ (.inl rfl) (fun ho => Bool.noConfusion ho) trivial

theorem SessionOk.runStatement (hs : SessionOk home s d) (hk : s.KeepsLocks d)
    (ha : a.mode = .exclusive → (s.session d).activeTableLocks a.key = some .exclusive ∨
      Grants (s.locks.locks (.statement d (s.session d).statements.length)) a) :
    SessionOk home (s.runStatement d a) d where
  acquirer := hs.acquirer
  noTransaction := by
    rw [Sessions.runStatement, set_session]
    exact hs.noTransaction
  active := by
    rw [Sessions.runStatement, set_session]
    exact fun _ => hs.active hk
  granted := by
    rw [Sessions.runStatement, set_session]
    exact hs.granted
  covered := by
    rw [Sessions.runStatement, set_session, Covered, set_session]
    exact ⟨ha, hs.covered.congr (by rw [set_session]; exact fun _ h => h) fun _ _ => rfl⟩
  stage := by
    rw [Sessions.runStatement, set_session]
    trivial

theorem step_statementLock (hl : s.LocksOk) (hs : SessionOk home s d)
    (h : s.next (.statementLock d) = some s') : StepOk home d s s' := by
  simp only [next] at h
  split at h
  case h_2 => cases h
  case h_1 t a hstage =>
    have hst := hs.stage
    rw [hstage] at hst
    obtain ⟨rfl, hexcl⟩ := hst
    have hk : s.KeepsLocks d := keepsLocks_of_stage hstage fun _ => by simp
    split at h
    case isTrue hactive =>
      rw [Option.some_inj] at h
      subst h
      refine ⟨hl, Local.refl.set, hs.runStatement hk fun ha => .inl ?_⟩
      obtain ⟨mode, hm⟩ := Option.ne_none_iff_exists'.1 hactive
      rw [hm, hexcl ha mode hm]
    case isFalse =>
      obtain ⟨s₁, hs₁, rfl⟩ := Option.map_eq_some_iff.1 h
      obtain ⟨hsession, hcalls, id, hlocks⟩ := lock_request hs₁
      refine ⟨(hl.lock keepsModes_request hs₁).set,
        (local_of_update hsession hcalls hlocks rfl).set, ?_⟩
      refine hs.setScratch hk hlocks (.inr rfl) (fun ho => Bool.noConfusion ho) ?_
      refine ⟨rfl, ?_, ?_, ?_⟩
      · rw [set_locks, hcalls, Function.update_self, set_session]
      · rw [set_locks, hlocks, set_session, Function.update_self]
      · rw [set_locks, hlocks, set_session, Function.update_self]

theorem step_enter (hl : s.LocksOk) (hs : SessionOk home s d)
    (hc : s.KeepsTwoPhase home (.enter d)) (h : s.next (.enter d) = some s') :
    StepOk home d s s' := by
  simp only [next] at h
  split at h
  case h_2 => cases h
  case h_1 t a hstage =>
    have hst := hs.stage
    rw [hstage] at hst
    obtain ⟨rfl, hcall, hkey, hmode⟩ := hst
    obtain ⟨s₁, hs₁, rfl⟩ := Option.map_eq_some_iff.1 h
    obtain ⟨hsession, hcalls, locked, hlocks⟩ := lock_enter hcall hs₁
    have hk : s.KeepsLocks d := keepsLocks_of_stage hstage fun _ => by simp
    have hacq := (hl.1.building (home d) _ hcall).1
    have hown : SessionOk home (s₁.set d { s.session d with stage := .outside }) d :=
      hs.setScratch hk hlocks (.inr rfl) (fun _ => hacq) trivial
    have hrun : s₁.runStatement d a =
        (s₁.set d { s.session d with stage := .outside }).runStatement d a := by
      simp [Sessions.runStatement, Sessions.set, hsession]
    refine ⟨(hl.lock hc hs₁).set, (local_of_update hsession hcalls hlocks rfl).set, ?_⟩
    rw [hrun]
    refine hown.runStatement (keepsLocks_of_stage (by rw [set_session]) fun _ => by simp)
      fun _ => .inr ?_
    rw [set_locks, set_session, hlocks, Function.update_self]
    exact ⟨rfl, hkey, hmode⟩

theorem step_write (hl : s.LocksOk) (hs : SessionOk home s d)
    (h : s.next (.write d key) = some s') : StepOk home d s s' := by
  simp only [next] at h
  split at h
  · rw [Option.ite_none_right_eq_some, Option.some_inj] at h
    exact h.2 ▸ ⟨hl, .refl, hs⟩
  · cases h

theorem step_abort (hl : s.LocksOk) (hs : SessionOk home s d) (h : s.next (.abort d) = some s') :
    StepOk home d s s' := by
  simp only [next] at h
  split at h
  case h_2 => cases h
  case h_1 _ _ hstage _ =>
    split at h
    · rw [Option.some_inj] at h
      subst h
      refine .set hl ⟨hs.acquirer, ?_, ?_, ?_, ?_, ?_⟩
      · rw [set_session]
        exact hs.noTransaction
      · rw [set_session]
        exact fun _ => hs.active (keepsLocks_of_stage hstage fun _ => by simp)
      · rw [set_session]
        exact hs.granted
      · rw [set_session]
        exact hs.covered.congr (by rw [set_session]; exact fun _ h => h) fun _ _ => rfl
      · rw [set_session]
        exact hstage ▸ trivial
    · rw [Option.some_inj] at h
      exact h ▸ ⟨hl, .refl, hs⟩

theorem step_return (hl : s.LocksOk) (hs : SessionOk home s d)
    (hc : s.KeepsTwoPhase home (.return d t)) (h : s.next (.return d t) = some s') :
    StepOk home d s s' := by
  have ht : t = home d := hc
  subst ht
  simp only [next] at h
  split at h
  case h_2 => cases h
  case h_1 _ _ b outer hstage hstatements =>
    obtain ⟨s₁, hs₁, rfl⟩ := Option.map_eq_some_iff.1 h
    obtain ⟨hsession, hcalls, hlocks⟩ := lock_drop hs₁
    have hk : s.KeepsLocks d := keepsLocks_of_stage hstage fun _ => by simp
    have hslot {v : LockSlot Session} (hv : v ≠ .statement d outer.length) :
        s₁.locks.locks v = s.locks.locks v := by
      rw [hlocks, Function.update_of_ne hv]
    have hcovered := hs.covered
    rw [hstatements] at hcovered
    refine ⟨LocksOk.set ?_, Local.set ⟨fun e _ => by rw [hsession], fun v hv => hslot ?_,
      fun u _ => by rw [hcalls]⟩, ?_, ?_, ?_, ?_, ?_, ?_⟩
    · exact hl.lock (keepsModes_drop fun ho => hs.acquirer _ rfl ho) hs₁
    · rintro rfl
      exact hv rfl
    · intro v hv ho
      rw [set_locks] at ho ⊢
      by_cases hva : v = .statement d outer.length
      · rw [hva, hlocks, Function.update_self] at ho
        cases ho
      · rw [hslot hva] at ho ⊢
        exact hs.acquirer v hv ho
    · rw [set_session]
      exact hs.noTransaction
    · intro _ key mode hm
      rw [set_session] at hm
      rw [set_locks, hslot (by simp)]
      exact hs.active hk key mode hm
    · rw [set_session]
      exact hs.granted
    · rw [set_session]
      refine hcovered.2.congr (by rw [set_session]; exact fun _ h => h) fun i hi => ?_
      rw [set_locks, hslot]
      simpa using hi.ne
    · rw [set_session]
      exact hstage ▸ trivial

/-- From here on the transaction is over, and no lock is promised any more. -/
theorem step_endTransaction (hl : s.LocksOk) (hs : SessionOk home s d)
    (h : s.endTransaction d (home d) = some s') : StepOk home d s s' := by
  simp only [endTransaction, Option.ite_none_right_eq_some, Option.some_inj] at h
  obtain ⟨⟨-, hnil⟩, rfl⟩ := h
  refine .set hl ⟨hs.acquirer, ?_, ?_, ?_, ?_, ?_⟩
  · rw [set_session]
    exact hs.noTransaction
  · intro hk
    exact absurd (by rw [set_session]) (hk (home d))
  · intro a ha
    rw [set_session] at ha
    cases ha
  · rw [set_session, hnil]
    trivial
  · rw [set_session]
    exact ⟨rfl, by rw [set_session]; exact hnil, by rw [set_session]⟩

theorem step_commit (hl : s.LocksOk) (hs : SessionOk home s d)
    (hc : s.KeepsTwoPhase home (.commit d t)) (h : s.next (.commit d t) = some s') :
    StepOk home d s s' := by
  have ht : t = home d := hc
  subst ht
  simp only [next] at h
  split at h
  · rw [Option.ite_none_left_eq_some] at h
    exact step_endTransaction hl hs h.2
  · cases h

theorem step_rollback (hl : s.LocksOk) (hs : SessionOk home s d)
    (hc : s.KeepsTwoPhase home (.rollback d t)) (h : s.next (.rollback d t) = some s') :
    StepOk home d s s' := by
  have ht : t = home d := hc
  subst ht
  simp only [next] at h
  split at h
  · exact step_endTransaction hl hs h
  · cases h

theorem step_release (hl : s.LocksOk) (hs : SessionOk home s d)
    (h : s.next (.release d key) = some s') : StepOk home d s s' := by
  simp only [next] at h
  split at h
  case h_2 => cases h
  case h_1 t hstage =>
    have hst := hs.stage
    rw [hstage] at hst
    obtain ⟨rfl, hnil, hgranted⟩ := hst
    rw [Option.ite_none_right_eq_some] at h
    obtain ⟨s₁, hs₁, rfl⟩ := Option.map_eq_some_iff.1 h.2
    obtain ⟨hsession, hcalls, hlocks⟩ := lock_drop hs₁
    have hslot {v : LockSlot Session} (hv : v ≠ .active d key) :
        s₁.locks.locks v = s.locks.locks v := by
      rw [hlocks, Function.update_of_ne hv]
    refine ⟨LocksOk.set ?_, Local.set ⟨fun e _ => by rw [hsession], fun v hv => hslot ?_,
      fun u _ => by rw [hcalls]⟩, ?_, ?_, ?_, ?_, ?_, ?_⟩
    · exact hl.lock (keepsModes_drop fun ho => hs.acquirer _ rfl ho) hs₁
    · rintro rfl
      exact hv rfl
    · intro v hv ho
      rw [set_locks] at ho ⊢
      by_cases hva : v = .active d key
      · rw [hva, hlocks, Function.update_self] at ho
        cases ho
      · rw [hslot hva] at ho ⊢
        exact hs.acquirer v hv ho
    · rw [set_session]
      exact hs.noTransaction
    · intro hk
      exact absurd (by rw [set_session]; exact hstage) (hk (home d))
    · intro a ha
      rw [set_session] at ha
      rw [show (s.session d).granted = [] from hgranted] at ha
      cases ha
    · rw [set_session, show (s.session d).statements = [] from hnil]
      trivial
    · rw [set_session]
      simp only [hstage, StageOk, set_session]
      exact ⟨trivial, hnil, hgranted⟩

theorem step_finish (hl : s.LocksOk) (hs : SessionOk home s d) (h : s.next (.finish d) = some s') :
    StepOk home d s s' := by
  simp only [next] at h
  split at h
  case h_2 => cases h
  case h_1 t hstage =>
    have hst := hs.stage
    rw [hstage] at hst
    obtain ⟨-, hnil, hgranted⟩ := hst
    rw [Option.ite_none_right_eq_some, Option.some_inj] at h
    obtain ⟨-, rfl⟩ := h
    refine .set hl ⟨hs.acquirer, ?_, ?_, ?_, ?_, ?_⟩
    · rw [set_session]
      exact fun _ _ => rfl
    · intro _ key mode hm
      rw [set_session] at hm
      cases hm
    · intro a ha
      rw [set_session] at ha
      rw [show (s.session d).granted = [] from hgranted] at ha
      cases ha
    · rw [set_session, show (s.session d).statements = [] from hnil]
      trivial
    · rw [set_session]
      trivial

theorem stepOk_of_next {x : Action Session Thread} (hl : s.LocksOk)
    (hs : SessionOk home s x.session) (hc : s.KeepsTwoPhase home x) (h : s.next x = some s') :
    StepOk home x.session s s' := by
  cases x with
  | begin d => exact step_begin hl hs h
  | call d t a => exact step_call hl hs hc h
  | attempt d => exact step_attempt hl hs h
  | obtain d => exact step_obtain hl hs hc h
  | timeout d => exact step_timeout hl hs h
  | statementLock d => exact step_statementLock hl hs h
  | enter d => exact step_enter hl hs hc h
  | write d key => exact step_write hl hs h
  | abort d => exact step_abort hl hs h
  | «return» d t => exact step_return hl hs hc h
  | commit d t => exact step_commit hl hs hc h
  | rollback d t => exact step_rollback hl hs hc h
  | release d key => exact step_release hl hs h
  | finish d => exact step_finish hl hs h

/-! ## Runs -/

theorem sessionOk_empty : SessionOk home (empty : Sessions Session Thread) d where
  acquirer _ _ h := by cases h
  noTransaction _ _ := rfl
  active _ _ _ h := by cases h
  granted _ h := by cases h
  covered := trivial
  stage := trivial

theorem ok_of_reaches (hhome : Function.Injective home)
    (h : (sessionMachine Session Thread).Reaches (KeepsTwoPhase home) s) :
    s.LocksOk ∧ ∀ d, SessionOk home s d := by
  refine h.invariant (I := fun s => s.LocksOk ∧ ∀ d, SessionOk home s d)
    ⟨⟨LockState.Sound.sound_empty, LockState.backed_empty⟩, fun d => sessionOk_empty⟩ ?_
  intro s s' x hs hc hnext
  have hstep := stepOk_of_next hs.1 (hs.2 x.session) hc hnext
  refine ⟨hstep.locks, fun e => ?_⟩
  by_cases he : e = x.session
  · exact he ▸ hstep.own
  · exact (hs.2 e).of_local he (hhome.ne he) hstep.others

/-- Every lock granted to a transaction that is not over is held, in its mode or a stronger one,
and no other session can write the table. -/
def StrictTwoPhase (s : Sessions Session Thread) : Prop :=
  ∀ d, ∀ a ∈ (s.session d).granted,
    (Grants (s.locks.locks (.active d a.key)) a ∨
      Grants (s.locks.locks (.active d a.key)) { a with mode := .exclusive }) ∧
    ∀ e, e ≠ d → s.next (.write e a.key) = none

/-- Session 1 reads a table in a transaction, while session 2 writes another one. -/
def readAndWrite : List (Action Nat Nat) :=
  [.begin 1, .call 1 1 ⟨[1], .shared⟩, .attempt 1, .obtain 1, .statementLock 1,
    .call 2 2 ⟨[2], .exclusive⟩, .statementLock 2, .enter 2, .write 2 [2], .return 1 1]

/-- Session 1 has read a table in a transaction and now wants to write it: it gives its shared
lock back before it asks for the exclusive one, and session 2 gets in between. -/
def upgrade : List (Action Nat Nat) :=
  [.begin 1, .call 1 1 ⟨[1], .shared⟩, .attempt 1, .obtain 1, .statementLock 1, .return 1 1,
    .call 1 1 ⟨[1], .exclusive⟩, .call 2 2 ⟨[1], .exclusive⟩, .statementLock 2, .enter 2,
    .write 2 [1]]

end Sessions

end ScratchDb
