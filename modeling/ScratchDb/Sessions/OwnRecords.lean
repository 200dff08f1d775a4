import Mathlib.Data.List.Pairwise
import ScratchDb.Sessions.SharedLog

/-!
# Sessions that take turns

The counters of a session are right about the log as long as no other session
has taken an id or appended since it read the log. While sessions take ids and
append in this state only, ids are distinct, the LSNs increase along the file,
and a rollback finds records of its own session only.
-/

namespace ScratchDb

open WalManager

variable {Session : Type}

/-! ## What a call of the manager does -/

section Call

variable [DecidableEq Session]

/-- What `call` has done with the records `new`. -/
structure SharedLog.Called (s t : SharedLog Session) (d : Session) (new : List WalRecord) :
    Prop where
  wal : t.disk.wal = s.disk.wal ++ new
  numbered : NumberedFrom (s.session d).lastLsn new
  session : t.session = Function.update s.session d
    { s.session d with lastLsn := (s.session d).lastLsn + new.length }
  appended : t.appended = s.appended ++ new.map fun r => (d, r)
  started : t.started = s.started
  stale : t.stale = if new = [] then s.stale else fun e => s.stale e || e ≠ d

theorem SharedLog.Called.stage_eq {s t : SharedLog Session} {d : Session} {new : List WalRecord}
    (h : s.Called t d new) : (t.session d).stage = (s.session d).stage := by
  rw [h.session, Function.update_self]

theorem SharedLog.call_spec {α : Type} {P : WalRecord → Prop} {m : Io α} (hm : Logs P m)
    (s : SharedLog Session) (d : Session) :
    ∃ a new, (s.call d m).1 = .ok a ∧ s.Called (s.call d m).2 d new ∧ ∀ r ∈ new, P r := by
  obtain ⟨a, w, hrun, new, hwal, hnum, hlsn, hP⟩ := hm ⟨s.disk, ⟨(s.session d).lastLsn, 0⟩, []⟩
  have hdrop : w.disk.wal.drop s.disk.wal.length = new := by rw [hwal, List.drop_left]
  refine ⟨a, new, by simp only [call, hrun], ?_, hP⟩
  simp only [call, hrun, hdrop]
  by_cases hnew : new = []
  · rw [if_pos hnew]
    exact ⟨hwal, hnum, by rw [← hlsn]; rfl, rfl, rfl, by rw [if_pos hnew]; rfl⟩
  · rw [if_neg hnew]
    exact ⟨hwal, hnum, by rw [← hlsn]; rfl, rfl, rfl, by rw [if_neg hnew]; rfl⟩

end Call

/-- What a task may append. -/
def LogTask.MayAppend (q : WalRecord) : LogTask → Prop
  | .redo _ => False
  | .undo r => TakesBack r q
  | .abort id => q.transactionId = id ∧ q.type = .abortTransaction

theorem LogTask.logs_run (task : LogTask) : Logs (task.MayAppend ·) task.run := by
  cases task with
  | redo r => exact logs_redoRecord r
  | undo r => exact logs_undoRecord fun _ h => h
  | abort id => exact logs_bind (logs_abortTransaction fun _ h h' => ⟨h, h'⟩) fun _ => logs_pure _

namespace SharedLog

/-! ## The invariant -/

/-- Both records change one page, for one transaction. -/
def SamePage (r q : WalRecord) : Prop :=
  q.type = .pageUpdate ∧ q.transactionId = r.transactionId ∧ q.tableFile = r.tableFile ∧
    q.pageId = r.pageId

/-- Some record of the log has at least this LSN. -/
def Reached (log : List WalRecord) (n : Nat) : Prop := ∃ q ∈ log, n ≤ q.lsn

/-- The task is about a record of the log, or about an id the log has reached. -/
def TaskOf (log : List WalRecord) : LogTask → Prop
  | .redo _ => True
  | .undo r => r ∈ log
  | .abort id => Reached log id

/-- The task is about this transaction. -/
def TaskFor (id : Nat) : LogTask → Prop
  | .redo _ => False
  | .undo r => r.transactionId = id
  | .abort t => t = id

/-- The tasks of a session are about the log, those of a rollback about its own transaction. -/
def Tasks (log : List WalRecord) (l : LogSession) : Prop :=
  match l.stage with
  | .recovering rest => ∀ task ∈ rest, TaskOf log task
  | .rollingBack rest => l.begun = true ∧ ∃ id, l.transaction = some id ∧
      ∀ task ∈ rest, TaskOf log task ∧ TaskFor id task
  | _ => True

/-- The counters of a session with an open log are past the log and past all ids taken. -/
structure Counted (log : List WalRecord) (started : List (Session × Nat)) (l : LogSession) :
    Prop where
  lsns : ∀ r ∈ log, r.lsn ≤ l.lastLsn
  ids : ∀ r ∈ log, r.transactionId < l.nextTransactionId
  started : ∀ p ∈ started, p.2 < l.nextTransactionId
  /-- the id counter is at most one ahead of the log, two while an id is not logged -/
  counter : l.nextTransactionId ≤
    l.lastLsn + 1 + if l.transaction.isSome && !l.begun then 1 else 0

/-- The counters of the session are right, as far as it has set them. -/
def Current (log : List WalRecord) (started : List (Session × Nat)) (l : LogSession) : Prop :=
  match l.stage with
  | .closed | .opened => True
  | .recovering _ => (∀ r ∈ log, r.lsn ≤ l.lastLsn) ∧ ∀ p ∈ started, p.2 ≤ l.lastLsn
  | .ready | .rollingBack _ => Counted log started l

/-- A session whose log is not open yet holds no id and has its first counter. -/
def Early (l : LogSession) : Prop :=
  match l.stage with
  | .ready | .rollingBack _ => True
  | _ => l.transaction = none ∧ l.nextTransactionId = 1

/-- The session still has to log the id. -/
def Holds (l : LogSession) (id : Nat) : Prop := l.transaction = some id ∧ l.begun = false

/-- What holds of one session. -/
structure Fits (s : SharedLog Session) (d : Session) (l : LogSession) : Prop where
  tasks : Tasks s.disk.wal l
  early : Early l
  taken : ∀ id, l.transaction = some id → (d, id) ∈ s.started
  logged : ∀ id, (d, id) ∈ s.started → Holds l id ∨ Reached s.disk.wal id
  current : s.stale d = false → Current s.disk.wal s.started l

/-- Where the begin record is in the log, so is the id. -/
theorem Fits.reached {s : SharedLog Session} {d : Session} {l : LogSession}
    (h : s.Fits d l) (hbegun : l.begun = true) {id : Nat} (hid : (d, id) ∈ s.started) : Reached s.disk.wal id := by
  refine (h.logged id hid).resolve_left fun hholds => ?_
  have := hbegun.symm.trans hholds.2
  cases this

/-- Tasks of a recovery may be left out. -/
theorem Fits.recovering {s : SharedLog Session} {d : Session} {l : LogSession} (h : s.Fits d l)
    {tasks rest : List LogTask} (hstage : l.stage = .recovering tasks) (hrest : rest ⊆ tasks) :
    s.Fits d { l with stage := .recovering rest } := by
  have htasks := h.tasks
  have hearly := h.early
  have hcurrent := h.current
  unfold Tasks at htasks
  unfold Early at hearly
  unfold Current at hcurrent
  simp only [hstage] at htasks hearly hcurrent
  exact ⟨fun task htask => htasks task (hrest htask), hearly, h.taken, h.logged, hcurrent⟩

/-- So may those of a rollback, and a rollback may stop. -/
theorem Fits.rollingBack {s : SharedLog Session} {d : Session} {l : LogSession} (h : s.Fits d l)
    {tasks rest : List LogTask} (hstage : l.stage = .rollingBack tasks) (hrest : rest ⊆ tasks) :
    s.Fits d { l with stage := .rollingBack rest } ∧ s.Fits d { l with stage := .ready } := by
  have htasks := h.tasks
  have hcurrent := h.current
  unfold Tasks at htasks
  unfold Current at hcurrent
  simp only [hstage] at htasks hcurrent
  have hcounted : s.stale d = false → ∀ stage, Counted s.disk.wal s.started { l with stage } :=
    fun hfresh _ => ⟨(hcurrent hfresh).lsns, (hcurrent hfresh).ids, (hcurrent hfresh).started,
      (hcurrent hfresh).counter⟩
  obtain ⟨hbegun, id, htx, htasks⟩ := htasks
  exact ⟨⟨⟨hbegun, id, htx, fun task htask => htasks task (hrest htask)⟩, trivial, h.taken, h.logged,
    fun hfresh => hcounted hfresh _⟩, ⟨trivial, trivial, h.taken, h.logged,
    fun hfresh => hcounted hfresh _⟩⟩

structure Inv (s : SharedLog Session) : Prop where
  lsns : s.disk.wal.Pairwise fun a b => a.lsn < b.lsn
  ids : ∀ r ∈ s.disk.wal, Reached s.disk.wal r.transactionId
  distinct : s.started.Pairwise fun p q => p.2 ≠ q.2
  own : ∀ r ∈ s.disk.wal, r.type = .pageUpdate → ∀ d, (d, r.transactionId) ∈ s.started →
    ∃ q, (d, q) ∈ s.appended ∧ SamePage r q
  fits : ∀ d, s.Fits d (s.session d)

theorem Reached.append {log : List WalRecord} {n : Nat} (h : Reached log n)
    (new : List WalRecord) : Reached (log ++ new) n := by
  obtain ⟨q, hq, hle⟩ := h
  exact ⟨q, List.mem_append_left _ hq, hle⟩

theorem TaskOf.append {log : List WalRecord} {task : LogTask} (h : TaskOf log task)
    (new : List WalRecord) : TaskOf (log ++ new) task := by
  cases task with
  | redo r => trivial
  | undo r => exact List.mem_append_left _ h
  | abort id => exact Reached.append h new

theorem Tasks.append {log : List WalRecord} {l : LogSession} (h : Tasks log l)
    (new : List WalRecord) : Tasks (log ++ new) l := by
  unfold Tasks at *
  cases hl : l.stage with
  | recovering rest =>
    simp only [hl] at h ⊢
    exact fun task htask => (h task htask).append new
  | rollingBack rest =>
    simp only [hl] at h ⊢
    obtain ⟨hbegun, id, hid, htasks⟩ := h
    exact ⟨hbegun, id, hid, fun task htask => ⟨(htasks task htask).1.append new, (htasks task htask).2⟩⟩
  | _ => trivial

theorem lsn_le_append {log new : List WalRecord} {lastLsn : Nat} (hlog : ∀ r ∈ log, r.lsn ≤ lastLsn)
    (hnum : NumberedFrom lastLsn new) : ∀ r ∈ log ++ new, r.lsn ≤ lastLsn + new.length := by
  intro r hr
  rcases List.mem_append.mp hr with hr | hr
  · exact (hlog r hr).trans (Nat.le_add_right _ _)
  · exact (hnum.lsn_bounds hr).2

/-- The counters stay right when the session appends. -/
theorem Counted.append {log new : List WalRecord} {started : List (Session × Nat)} {l : LogSession}
    (h : Counted log started l) (hnum : NumberedFrom l.lastLsn new)
    (hids : ∀ r ∈ new, r.transactionId < l.nextTransactionId) :
    Counted (log ++ new) started { l with lastLsn := l.lastLsn + new.length } where
  lsns := lsn_le_append h.lsns hnum
  ids r hr := (List.mem_append.mp hr).elim (h.ids r) (hids r)
  started := h.started
  counter := h.counter.trans (by simp only; omega)

theorem Current.append {log new : List WalRecord} {started : List (Session × Nat)} {l : LogSession}
    (h : Current log started l) (hnum : NumberedFrom l.lastLsn new)
    (hids : (∃ rest, l.stage = .recovering rest) ∨
      ∀ r ∈ new, r.transactionId < l.nextTransactionId) :
    Current (log ++ new) started { l with lastLsn := l.lastLsn + new.length } := by
  rcases l with ⟨_ | _ | rest | _ | rest, lastLsn, nextTransactionId, transaction, begun⟩
  · trivial
  · trivial
  · exact ⟨lsn_le_append h.1 hnum, fun p hp => (h.2 p hp).trans (Nat.le_add_right _ _)⟩
  · exact Counted.append h hnum (hids.resolve_left (by simp))
  · exact Counted.append h hnum (hids.resolve_left (by simp))

variable [DecidableEq Session]

/-- Changing one session, and whether it is stale, keeps the invariant if the session still fits. -/
theorem Inv.setStale {s : SharedLog Session} (h : Inv s) {d : Session} {l : LogSession}
    {stale : Session → Bool} (hstale : ∀ e, e ≠ d → stale e = s.stale e)
    (hl : Fits { s with stale } d l) : Inv { s.set d l with stale } where
  lsns := h.lsns
  ids := h.ids
  distinct := h.distinct
  own := h.own
  fits e := by
    by_cases he : e = d
    · subst he
      show Fits _ e ((s.set e l).session e)
      rw [set_self]
      exact ⟨hl.tasks, hl.early, hl.taken, hl.logged, hl.current⟩
    · have hfits := h.fits e
      show Fits _ e ((s.set d l).session e)
      rw [set_of_ne s he]
      exact ⟨hfits.tasks, hfits.early, hfits.taken, hfits.logged,
        fun hfresh => hfits.current (hstale e he ▸ hfresh)⟩

theorem Inv.set {s : SharedLog Session} (h : Inv s) {d : Session} {l : LogSession}
    (hl : s.Fits d l) : Inv (s.set d l) :=
  h.setStale (fun _ _ => rfl) hl

/-- A session that is not stale may append records whose ids the log reaches with them. -/
theorem Inv.called {s t : SharedLog Session} {d : Session} {new : List WalRecord} (h : Inv s)
    (hcalled : s.Called t d new) (hstale : s.stale d = false)
    (hlsn : ∀ r ∈ s.disk.wal, r.lsn ≤ (s.session d).lastLsn)
    (hids : ∀ r ∈ new, Reached (s.disk.wal ++ new) r.transactionId)
    (hown : ∀ r ∈ new, r.type = .pageUpdate → ∀ e, (e, r.transactionId) ∈ s.started →
      ∃ q, (e, q) ∈ t.appended ∧ SamePage r q)
    (hcurrent : Current t.disk.wal t.started (t.session d)) : Inv t where
  lsns := by
    rw [hcalled.wal]
    refine List.pairwise_append.mpr ⟨h.lsns, hcalled.numbered.pairwise, fun a ha b hb => ?_⟩
    exact lt_of_le_of_lt (hlsn a ha) (hcalled.numbered.lsn_bounds hb).1
  ids r hr := by
    rw [hcalled.wal] at hr ⊢
    rcases List.mem_append.mp hr with hr | hr
    · exact (h.ids r hr).append new
    · exact hids r hr
  distinct := hcalled.started ▸ h.distinct
  own r hr htype e he := by
    rw [hcalled.started] at he
    rw [hcalled.wal] at hr
    rcases List.mem_append.mp hr with hr | hr
    · obtain ⟨q, hq, hsame⟩ := h.own r hr htype e he
      exact ⟨q, hcalled.appended ▸ List.mem_append_left _ hq, hsame⟩
    · exact hown r hr htype e he
  fits e := by
    have hfits := h.fits e
    by_cases he : e = d
    · subst he
      rw [hcalled.session, Function.update_self] at hcurrent ⊢
      refine ⟨?_, hfits.early, ?_, ?_, fun _ => hcurrent⟩
      · rw [hcalled.wal]
        exact hfits.tasks.append new
      · rw [hcalled.started]
        exact hfits.taken
      · rw [hcalled.started, hcalled.wal]
        exact fun id hid => (hfits.logged id hid).imp_right (Reached.append · new)
    · rw [hcalled.session, Function.update_of_ne he]
      refine ⟨?_, hfits.early, ?_, ?_, fun hfresh => ?_⟩
      · rw [hcalled.wal]
        exact hfits.tasks.append new
      · rw [hcalled.started]
        exact hfits.taken
      · rw [hcalled.started, hcalled.wal]
        exact fun id hid => (hfits.logged id hid).imp_right (Reached.append · new)
      · -- another session is stale now, or nothing was appended
        rw [hcalled.stale] at hfresh
        by_cases hnew : new = []
        · rw [if_pos hnew] at hfresh
          rw [hcalled.wal, hcalled.started, hnew, List.append_nil]
          exact hfits.current hfresh
        · rw [if_neg hnew] at hfresh
          simp [he] at hfresh

/-! ## Opening the log -/

section Steps

variable {s t : SharedLog Session} {d : Session}

theorem inv_construct (h : Inv s) (hnext : s.next (.construct d) = some t) : Inv t := by
  have hfits := h.fits d
  rw [next] at hnext
  rcases hstage : (s.session d).stage with _ | _ | rest | _ | rest <;> simp only [hstage] at hnext <;>
    cases hnext
  refine h.set ⟨trivial, ?_, hfits.taken, hfits.logged, fun _ => trivial⟩
  have hearly := hfits.early
  unfold Early at hearly ⊢
  simpa only [hstage] using hearly

theorem taskOf_recoveryTasks {log : List WalRecord} (h : ∀ r ∈ log, Reached log r.transactionId)
    {task : LogTask} (htask : task ∈ recoveryTasks log) : TaskOf log task := by
  rw [recoveryTasks, List.mem_append, List.mem_append, List.mem_map, List.mem_map,
    List.mem_map] at htask
  rcases htask with (⟨r, hr, rfl⟩ | ⟨r, hr, rfl⟩) | ⟨id, hid, rfl⟩
  · trivial
  · exact mem_undone hr
  · obtain ⟨⟨r, hr, -, rfl⟩, -⟩ := mem_losersOf.mp hid
    exact h r hr

/-- Reading the log brings the counter of the manager up to it. -/
theorem inv_readLog (h : Inv s) (hnext : s.next (.readLog d) = some t) : Inv t := by
  have hfits := h.fits d
  rw [next] at hnext
  rcases hstage : (s.session d).stage with _ | _ | rest | _ | rest <;> simp only [hstage] at hnext <;>
    cases hnext
  have hearly := hfits.early
  unfold Early at hearly
  simp only [hstage] at hearly
  refine h.setStale (fun e he => Function.update_of_ne he ..) ⟨?_, hearly, hfits.taken, hfits.logged, ?_⟩
  · exact fun task htask => taskOf_recoveryTasks h.ids htask
  · intro hfresh
    have hothers : ¬s.OthersHold d := by simpa [Function.update_self] using hfresh
    refine ⟨fun r hr => WalFile.lsn_le_maxLsn hr, fun p hp => ?_⟩
    -- no one holds an id that is not in the log
    have hreached : Reached s.disk.wal p.2 := by
      refine ((h.fits p.1).logged p.2 hp).resolve_left fun hholds => ?_
      by_cases hpd : p.1 = d
      · rw [hpd] at hholds
        rw [hholds.1] at hearly
        cases hearly.1
      · exact hothers ⟨p, hp, hpd, hholds⟩
    obtain ⟨q, hq, hle⟩ := hreached
    exact hle.trans (WalFile.lsn_le_maxLsn hq)

theorem inv_passLog (h : Inv s) (hnext : s.next (.passLog d) = some t) : Inv t := by
  have hfits := h.fits d
  rw [next] at hnext
  rcases hstage : (s.session d).stage with _ | _ | (_ | ⟨task, rest⟩) | _ | rest <;>
    simp only [hstage] at hnext <;> cases hnext
  have hearly := hfits.early
  unfold Early at hearly
  simp only [hstage] at hearly
  refine h.set ⟨trivial, trivial, hfits.taken, hfits.logged, fun hfresh => ?_⟩
  have hcurrent := hfits.current hfresh
  unfold Current at hcurrent
  simp only [hstage] at hcurrent
  obtain ⟨hlsn, hstarted⟩ := hcurrent
  have hcounter : (if (s.session d).nextTransactionId ≤ (s.session d).lastLsn then
      (s.session d).lastLsn + 1 else (s.session d).nextTransactionId) =
      (s.session d).lastLsn + 1 := by
    rw [hearly.2]
    split <;> omega
  rw [hcounter]
  refine ⟨hlsn, fun r hr => ?_, fun p hp => Nat.lt_succ_of_le (hstarted p hp), Nat.le_add_right _ _⟩
  obtain ⟨q, hq, hle⟩ := h.ids r hr
  exact Nat.lt_succ_of_le (hle.trans (hlsn q hq))

/-! ## Taking ids -/

/-- The id taken is beyond all ids taken before and all ids in the log. -/
theorem inv_takeId (h : Inv s) (hready : (s.session d).stage = .ready) (hstale : s.stale d = false)
    (hnext : s.next (.takeId d) = some t) : Inv t := by
  have hfits := h.fits d
  have hcurrent := hfits.current hstale
  unfold Current at hcurrent
  simp only [hready] at hcurrent
  obtain ⟨hlsn, hids, hstarted, hcounter⟩ := hcurrent
  rw [next] at hnext
  simp only [hready] at hnext
  rcases htx : (s.session d).transaction with _ | id <;> simp only [htx] at hnext <;> cases hnext
  rw [htx] at hcounter
  refine ⟨h.lsns, h.ids, ?_, ?_, fun e => ?_⟩
  · refine List.pairwise_append.mpr ⟨h.distinct, List.pairwise_singleton _ _, fun p hp q hq => ?_⟩
    rw [List.mem_singleton.mp hq]
    exact (hstarted p hp).ne
  · intro r hr htype e he
    rcases List.mem_append.mp he with he | he
    · exact h.own r hr htype e he
    · -- no record of the log has the id yet
      have heq : r.transactionId = (s.session d).nextTransactionId :=
        (Prod.mk.inj (List.mem_singleton.mp he)).2
      exact absurd heq (hids r hr).ne
  by_cases he : e = d
  · subst he
    show Fits _ e ((SharedLog.set _ e _).session e)
    rw [set_self]
    refine ⟨trivial, trivial, fun id hid => ?_, fun id hid => ?_, fun _ => ⟨hlsn, ?_, ?_, ?_⟩⟩
    · cases hid
      exact List.mem_append_right _ List.mem_cons_self
    · rcases List.mem_append.mp hid with hid | hid
      · refine .inr ((hfits.logged id hid).resolve_left fun hholds => ?_)
        rw [hholds.1] at htx
        cases htx
      · exact .inl ⟨congrArg some (Prod.mk.inj (List.mem_singleton.mp hid)).2.symm, rfl⟩
    · exact fun r hr => Nat.lt_succ_of_lt (hids r hr)
    · intro p hp
      rcases List.mem_append.mp hp with hp | hp
      · exact Nat.lt_succ_of_lt (hstarted p hp)
      · rw [List.mem_singleton.mp hp]
        exact Nat.lt_succ_self _
    · simpa using hcounter
  · -- every other session is stale now
    have hother := h.fits e
    show Fits _ e ((SharedLog.set _ d _).session e)
    rw [set_of_ne _ he]
    refine ⟨hother.tasks, hother.early, fun id hid => List.mem_append_left _ (hother.taken id hid),
      fun id hid => ?_, fun hfresh => ?_⟩
    · rcases List.mem_append.mp hid with hid | hid
      · exact hother.logged id hid
      · exact absurd (Prod.mk.inj (List.mem_singleton.mp hid)).1 he
    · have hacted : (s.stale e || decide (e ≠ d)) = false := hfresh
      simp [he] at hacted

/-! ## Appending -/

theorem Inv.started_eq (h : Inv s) {e f : Session} {id : Nat} (he : (e, id) ∈ s.started)
    (hf : (f, id) ∈ s.started) : e = f := by
  by_contra hne
  have hsymm : Std.Symm fun p q : Session × Nat => p.2 ≠ q.2 := ⟨fun _ _ => Ne.symm⟩
  exact h.distinct.forall he hf (by simp [hne]) rfl

/-- The running transaction of a session appends a record. -/
theorem inv_append (h : Inv s) (hready : (s.session d).stage = .ready) (hstale : s.stale d = false)
    {id : Nat} (htx : (s.session d).transaction = some id) (type : WalRecordType) (file : Bytes)
    (k : Nat) (before after : Bytes) :
    ∃ r, s.Called (s.call d (appendRecord type id file k before after [])).2 d [r] ∧
      r.transactionId = id ∧ Inv (s.call d (appendRecord type id file k before after [])).2 := by
  obtain ⟨a, new, -, hcalled, hid⟩ :=
    call_spec (logs_appendRecord (P := fun r => r.transactionId = id) fun _ => rfl) s d
  have hnew : ∃ r, new = [r] := by
    have hwal : (s.call d (appendRecord type id file k before after [])).2.disk.wal =
        s.disk.wal ++ [⟨type, (s.session d).lastLsn + 1, id, k, file, before, after, []⟩] := by
      unfold call
      simp only [appendRecord_eq]
      split <;> rfl
    exact ⟨_, List.append_cancel_left (hcalled.wal.symm.trans hwal)⟩
  obtain ⟨r, rfl⟩ := hnew
  have hrid : r.transactionId = id := hid r List.mem_cons_self
  have hfits := h.fits d
  have hcurrent := hfits.current hstale
  have hcounted := hcurrent
  unfold Current at hcounted
  simp only [hready] at hcounted
  have hmem := hfits.taken id htx
  have hlt : id < (s.session d).nextTransactionId := hcounted.started _ hmem
  refine ⟨r, hcalled, hrid, h.called hcalled hstale hcounted.lsns (fun q hq => ?_)
    (fun q hq htype e he => ?_) ?_⟩
  · refine ⟨q, List.mem_append_right _ hq, ?_⟩
    have := (hcalled.numbered.lsn_bounds hq).1
    have := hcounted.counter
    rw [hid q hq]
    split at this <;> omega
  · rw [hid q hq] at he
    rw [h.started_eq he hmem, hcalled.appended]
    exact ⟨q, List.mem_append_right _ (List.mem_map_of_mem hq), htype, rfl, rfl, rfl⟩
  · rw [hcalled.wal, hcalled.started, hcalled.session, Function.update_self]
    exact hcurrent.append hcalled.numbered (.inr fun q hq => hid q hq ▸ hlt)

theorem inv_begin (h : Inv s) (hstale : s.stale d = false) (hnext : s.next (.begin d) = some t) :
    Inv t := by
  rw [next] at hnext
  rcases hstage : (s.session d).stage with _ | _ | rest | _ | rest <;> simp only [hstage] at hnext <;>
    try cases hnext
  rcases htx : (s.session d).transaction with _ | id <;> simp only [htx] at hnext <;> try cases hnext
  rcases hbegun : (s.session d).begun with _ | _ <;> simp only [hbegun] at hnext <;> cases hnext
  obtain ⟨r, hcalled, hrid, hinv⟩ := inv_append h hstage hstale htx .beginTransaction [] noPageId [] []
  rw [beginTransaction]
  set u := (s.call d (appendRecord .beginTransaction id [] noPageId [] [] [])).2 with hu
  have hcounted := (h.fits d).current hstale
  unfold Current at hcounted
  simp only [hstage] at hcounted
  have hsession : u.session d = { s.session d with lastLsn := (s.session d).lastLsn + 1 } := by
    rw [hcalled.session, Function.update_self]
    rfl
  have hfits := hinv.fits d
  rw [hsession] at hfits ⊢
  have hcounter := hcounted.counter
  rw [htx, hbegun] at hcounter
  have hreached : Reached u.disk.wal id := by
    have hlt := hcounted.started _ ((h.fits d).taken id htx)
    have := (hcalled.numbered.lsn_bounds List.mem_cons_self).1
    refine ⟨r, hcalled.wal ▸ List.mem_append_right _ List.mem_cons_self, ?_⟩
    simp at hcounter hlt
    omega
  refine hinv.set ⟨?_, ?_, hfits.taken, fun id' hid' => ?_, fun hfresh => ?_⟩
  · unfold Tasks
    simp only [hstage]
  · unfold Early
    simp only [hstage]
  · rcases hfits.logged id' hid' with hholds | hlogged
    · have heq : id = id' := Option.some.inj (htx.symm.trans hholds.1)
      exact .inr (heq ▸ hreached)
    · exact .inr hlogged
  · have hnow := hfits.current hfresh
    unfold Current at hnow ⊢
    simp only [hstage] at hnow ⊢
    exact ⟨hnow.lsns, hnow.ids, hnow.started, by simpa using hcounter⟩

theorem inv_write (h : Inv s) (hstale : s.stale d = false) {type : WalRecordType} {file : Bytes}
    {k : Nat} {before after : Bytes} (hnext : s.next (.write d type file k before after) = some t) :
    Inv t := by
  rw [next] at hnext
  rcases hstage : (s.session d).stage with _ | _ | rest | _ | rest <;> simp only [hstage] at hnext <;>
    try cases hnext
  rcases htx : (s.session d).transaction with _ | id <;> simp only [htx] at hnext <;> try cases hnext
  rcases hbegun : (s.session d).begun with _ | _ <;> simp only [hbegun] at hnext <;> cases hnext
  obtain ⟨r, -, -, hinv⟩ := inv_append h hstage hstale htx type file k before after
  exact hinv

/-- A transaction that has logged its begin record may end. -/
theorem Inv.endTransaction (h : Inv s)
    (hstage : (s.session d).stage = .ready ∨ ∃ rest, (s.session d).stage = .rollingBack rest)
    (hbegun : (s.session d).begun = true) :
    Inv (s.set d { s.session d with stage := .ready, transaction := none }) := by
  have hfits := h.fits d
  refine h.set ⟨trivial, trivial, fun id hid => (by cases hid),
    fun id hid => .inr (hfits.reached hbegun hid), fun hfresh => ?_⟩
  have hcurrent := hfits.current hfresh
  have hcounted : Counted s.disk.wal s.started (s.session d) := by
    unfold Current at hcurrent
    rcases hstage with hstage | ⟨rest, hstage⟩ <;> simpa only [hstage] using hcurrent
  refine ⟨hcounted.lsns, hcounted.ids, hcounted.started, ?_⟩
  simpa [hbegun] using hcounted.counter

theorem inv_commit (h : Inv s) (hstale : s.stale d = false) (hnext : s.next (.commit d) = some t) :
    Inv t := by
  rw [next] at hnext
  rcases hstage : (s.session d).stage with _ | _ | rest | _ | rest <;> simp only [hstage] at hnext <;>
    try cases hnext
  rcases htx : (s.session d).transaction with _ | id <;> simp only [htx] at hnext <;> try cases hnext
  rcases hbegun : (s.session d).begun with _ | _ <;> simp only [hbegun] at hnext <;> cases hnext
  obtain ⟨r, hcalled, -, hinv⟩ := inv_append h hstage hstale htx .commitTransaction [] noPageId [] []
  have hsession : ∀ u : SharedLog Session, u.session = (Function.update s.session d
      { s.session d with lastLsn := (s.session d).lastLsn + [r].length }) →
      (u.session d).stage = .ready ∧ (u.session d).begun = true := by
    rintro u hu
    rw [hu, Function.update_self]
    exact ⟨hstage, hbegun⟩
  obtain ⟨hstage', hbegun'⟩ := hsession _ hcalled.session
  have hend := hinv.endTransaction (.inl hstage') hbegun'
  rw [← hstage'] at hend
  exact hend

theorem inv_abandon (h : Inv s) (hnext : s.next (.abandon d) = some t) : Inv t := by
  rw [next] at hnext
  rcases hstage : (s.session d).stage with _ | _ | rest | _ | rest <;> simp only [hstage] at hnext <;>
    try cases hnext
  rcases hbegun : (s.session d).begun with _ | _ <;> simp only [hbegun] at hnext <;> cases hnext
  rw [← hbegun]
  exact h.endTransaction (.inl hstage) hbegun

/-! ## Recovering and rolling back -/

theorem inv_rollback (h : Inv s) (hnext : s.next (.rollback d) = some t) : Inv t := by
  have hfits := h.fits d
  rw [next] at hnext
  rcases hstage : (s.session d).stage with _ | _ | rest | _ | rest <;> simp only [hstage] at hnext <;>
    try cases hnext
  rcases htx : (s.session d).transaction with _ | id <;> simp only [htx] at hnext <;> try cases hnext
  rcases hbegun : (s.session d).begun with _ | _ <;> simp only [hbegun] at hnext <;> cases hnext
  have hid := hfits.taken id htx
  refine h.set ⟨⟨rfl, id, rfl, fun task htask => ?_⟩, trivial,
    fun id' hid' => hfits.taken id' (htx.trans hid'),
    fun id' hid' => .inr (hfits.reached hbegun hid'), fun hfresh => ?_⟩
  · rcases List.mem_append.mp htask with htask | htask
    · obtain ⟨r, hr, rfl⟩ := List.mem_map.mp htask
      rw [rolledBack_eq, List.mem_reverse, List.mem_filter] at hr
      exact ⟨hr.1, beq_iff_eq.mp hr.2⟩
    · rw [List.mem_singleton.mp htask]
      exact ⟨hfits.reached hbegun hid, rfl⟩
  · have hcurrent := hfits.current hfresh
    unfold Current at hcurrent
    simp only [hstage] at hcurrent
    refine ⟨hcurrent.lsns, hcurrent.ids, hcurrent.started, ?_⟩
    simpa [htx, hbegun] using hcurrent.counter

/-- A task of a recovery or of a rollback keeps the invariant. -/
theorem inv_task (h : Inv s) (hstale : s.stale d = false)
    (hlsn : ∀ r ∈ s.disk.wal, r.lsn ≤ (s.session d).lastLsn) {task : LogTask}
    (hof : TaskOf s.disk.wal task)
    (hfor : (∃ rest, (s.session d).stage = .recovering rest) ∨
      ∃ id, TaskFor id task ∧ id < (s.session d).nextTransactionId) :
    ∃ new, s.Called (s.call d task.run).2 d new ∧ Inv (s.call d task.run).2 := by
  obtain ⟨b, new, -, hcalled, hmay⟩ := call_spec task.logs_run s d
  refine ⟨new, hcalled, h.called hcalled hstale hlsn (fun q hq => ?_) (fun q hq htype e he => ?_) ?_⟩
  · have hq' := hmay q hq
    cases task with
    | redo r => exact hq'.elim
    | undo r =>
      rw [hq'.transactionId]
      exact (h.ids r hof).append new
    | abort id =>
      rw [hq'.1]
      exact Reached.append hof new
  · have hq' := hmay q hq
    cases task with
    | redo r => exact hq'.elim
    | undo r =>
      -- the record undone changed the same page
      obtain ⟨htype', hfile, hpage⟩ := hq'.page htype
      obtain ⟨q₀, hq₀, hsame⟩ := h.own r hof htype' e (hq'.transactionId ▸ he)
      refine ⟨q₀, hcalled.appended ▸ List.mem_append_left _ hq₀, hsame.1, ?_, ?_, ?_⟩
      · rw [hsame.2.1, hq'.transactionId]
      · rw [hsame.2.2.1, hfile]
      · rw [hsame.2.2.2, hpage]
    | abort id =>
      rw [hq'.2] at htype
      cases htype
  · rw [hcalled.wal, hcalled.started, hcalled.session, Function.update_self]
    refine ((h.fits d).current hstale).append hcalled.numbered (hfor.imp_right ?_)
    rintro ⟨id, hid, hlt⟩ q hq
    have hq' := hmay q hq
    have heq : q.transactionId = id := by
      cases task with
      | redo r => exact hq'.elim
      | undo r => exact hq'.transactionId.trans hid
      | abort id' => exact hq'.1.trans hid
    rwa [heq]

theorem inv_work (h : Inv s) (hstale : s.stale d = false) (hnext : s.next (.work d) = some t) :
    Inv t := by
  have hfits := h.fits d
  have htasks := hfits.tasks
  have hcurrent := hfits.current hstale
  unfold Tasks at htasks
  unfold Current at hcurrent
  rw [next] at hnext
  rcases hstage : (s.session d).stage with _ | _ | (_ | ⟨task, rest⟩) | _ | (_ | ⟨task, rest⟩) <;>
    simp only [hstage] at hnext htasks hcurrent <;> cases hnext
  · -- a recovery
    obtain ⟨new, hcalled, hinv⟩ := inv_task h hstale hcurrent.1 (htasks task List.mem_cons_self)
      (.inl ⟨_, hstage⟩)
    have hstage' := hcalled.stage_eq.trans hstage
    refine hinv.set ?_
    rcases (s.call d task.run).1 with e | (_ | _)
    · exact (hinv.fits d).recovering hstage' (List.nil_subset _)
    · exact (hinv.fits d).recovering hstage' (List.nil_subset _)
    · exact (hinv.fits d).recovering hstage' (List.subset_cons_self _ _)
  · -- a rollback
    obtain ⟨hbegun, id, htx, htasks⟩ := htasks
    have hlt := hcurrent.started _ (hfits.taken id htx)
    obtain ⟨hof, hfor⟩ := htasks task List.mem_cons_self
    obtain ⟨new, hcalled, hinv⟩ := inv_task h hstale hcurrent.lsns hof (.inr ⟨id, hfor, hlt⟩)
    have hrolling := (hinv.fits d).rollingBack (hcalled.stage_eq.trans hstage)
      (List.subset_cons_self task rest)
    refine hinv.set ?_
    rcases (s.call d task.run).1 with e | (_ | _)
    · exact hrolling.2
    · exact hrolling.2
    · exact hrolling.1

theorem inv_finish (h : Inv s) (hnext : s.next (.finish d) = some t) : Inv t := by
  have htasks := (h.fits d).tasks
  rw [next] at hnext
  rcases hstage : (s.session d).stage with _ | _ | rest | _ | (_ | ⟨task, rest⟩) <;>
    simp only [hstage] at hnext <;> cases hnext
  unfold Tasks at htasks
  simp only [hstage] at htasks
  exact h.endTransaction (.inr ⟨[], hstage⟩) htasks.1

end Steps

/-! ## Turns -/

/-- The step takes an id only with the log open, and takes an id or appends only if no other
session has done so since this one read the log. -/
def InTurn (s : SharedLog Session) : Action Session → Prop
  | .takeId d => (s.session d).stage = .ready ∧ s.stale d = false
  | .work d | .begin d | .write d .. | .commit d => s.stale d = false
  | _ => True

instance (s : SharedLog Session) (a : Action Session) : Decidable (s.InTurn a) :=
  match a with
  | .takeId d => by dsimp only [InTurn]; infer_instance
  | .work d => by dsimp only [InTurn]; infer_instance
  | .begin d => by dsimp only [InTurn]; infer_instance
  | .write d .. => by dsimp only [InTurn]; infer_instance
  | .commit d => by dsimp only [InTurn]; infer_instance
  | .construct _ => isTrue trivial
  | .readLog _ => isTrue trivial
  | .passLog _ => isTrue trivial
  | .rollback _ => isTrue trivial
  | .finish _ => isTrue trivial
  | .abandon _ => isTrue trivial

/-- What sessions are promised about each other. -/
structure Apart (s : SharedLog Session) : Prop where
  /-- no id is taken by two sessions -/
  ids : ∀ d e id, (d, id) ∈ s.started → (e, id) ∈ s.started → d = e
  lsns : s.disk.wal.Pairwise fun a b => a.lsn < b.lsn
  /-- a rollback rewrites pages that its session has changed in its transaction -/
  rollbacks : ∀ d rest, (s.session d).stage = .rollingBack rest → ∀ r, .undo r ∈ rest →
    r.type = .pageUpdate → (s.session d).transaction = some r.transactionId ∧
      ∃ q, (d, q) ∈ s.appended ∧ SamePage r q

theorem inv_next {s t : SharedLog Session} {a : Action Session} (h : Inv s) (hturn : s.InTurn a)
    (hnext : s.next a = some t) : Inv t := by
  cases a with
  | construct d => exact inv_construct h hnext
  | readLog d => exact inv_readLog h hnext
  | work d => exact inv_work h hturn hnext
  | passLog d => exact inv_passLog h hnext
  | takeId d => exact inv_takeId h hturn.1 hturn.2 hnext
  | begin d => exact inv_begin h hturn hnext
  | write d type file k before after => exact inv_write h hturn hnext
  | commit d => exact inv_commit h hturn hnext
  | rollback d => exact inv_rollback h hnext
  | finish d => exact inv_finish h hnext
  | abandon d => exact inv_abandon h hnext

theorem Inv.apart {s : SharedLog Session} (h : Inv s) : s.Apart where
  ids d e id hd he := h.started_eq hd he
  lsns := h.lsns
  rollbacks d rest hstage r hr htype := by
    have hfits := h.fits d
    have htasks := hfits.tasks
    unfold Tasks at htasks
    simp only [hstage] at htasks
    obtain ⟨-, id, htx, htasks⟩ := htasks
    obtain ⟨hmem, hid⟩ := htasks _ hr
    have heq : r.transactionId = id := hid
    rw [heq]
    exact ⟨htx, h.own r hmem htype d (heq ▸ hfits.taken id htx)⟩

end SharedLog

/-- The log as the sessions find it: its LSNs increase, and no id exceeds the largest of them. -/
structure Numbered (log : List WalRecord) : Prop where
  lsns : log.Pairwise fun a b => a.lsn < b.lsn
  ids : ∀ r ∈ log, ∃ q ∈ log, r.transactionId ≤ q.lsn

/-- In every run whose steps are taken in turn, sessions share no id, the LSNs increase along the
file, and a rollback finds changes of its own session and transaction only. -/
theorem apart_of_reaches [DecidableEq Session] {disk : Disk} (hlog : Numbered disk.wal)
    {s : SharedLog Session}
    (h : (sharedLogMachine Session disk).Reaches SharedLog.InTurn s) : s.Apart := by
  refine (h.invariant (I := SharedLog.Inv) ?_ fun s t a hinv hturn hnext =>
    SharedLog.inv_next hinv hturn hnext).apart
  refine ⟨hlog.lsns, hlog.ids, .nil, fun r _ _ d hd => (by cases hd), fun d => ?_⟩
  exact ⟨trivial, ⟨rfl, rfl⟩, fun id hid => (by cases hid), fun id hid => (by cases hid),
    fun _ => trivial⟩

/-! ## Two sessions -/

/-- A directory with an empty log. -/
def emptyLogDisk : Disk := ⟨⟨fun _ => true, fun _ => none, fun _ => none⟩, []⟩

def openLogOf (d : Bool) : List (SharedLog.Action Bool) := [.construct d, .readLog d, .passLog d]

/-- A page of the file `f` is changed. -/
def changePage (d : Bool) : SharedLog.Action Bool :=
  .write d .pageUpdate [102] 0 Page.zero.image Page.zero.image

/-- One session commits before the other opens the log, redoes its two records and rolls back a
transaction of its own. -/
def oneByOne : List (SharedLog.Action Bool) :=
  openLogOf false ++ [.takeId false, .begin false, .commit false] ++
    [.construct true, .readLog true, .work true, .work true, .passLog true] ++
    [.takeId true, .begin true, changePage true, .rollback true]

theorem apart_of_reaches_oneByOne : ∃ s, (sharedLogMachine Bool emptyLogDisk).run oneByOne = some s ∧
    s.started = [(false, 1), (true, 3)] ∧ s.Apart := by
  have hrun : ∃ s, (sharedLogMachine Bool emptyLogDisk).runWhile SharedLog.InTurn
      (sharedLogMachine Bool emptyLogDisk).init oneByOne = some s ∧
      s.started = [(false, 1), (true, 3)] := by
    refine ⟨_, rfl, ?_⟩
    rfl
  obtain ⟨s, hrun, hstarted⟩ := hrun
  exact ⟨s, Machine.runFrom_of_runWhile hrun, hstarted,
    apart_of_reaches ⟨.nil, by simp [emptyLogDisk]⟩ (Machine.Reaches.init.runWhile hrun)⟩

/-- Both sessions open the log, then one commits a change, and the other begins and rolls back: it
has the id and the LSN of the first, and undoes the committed change. -/
theorem rollback_finds_other_session : ∃ s,
    (sharedLogMachine Bool emptyLogDisk).run
      (openLogOf false ++ openLogOf true ++
        [.takeId false, .begin false, changePage false, .commit false,
          .takeId true, .begin true, .rollback true]) = some s ∧
      s.started = [(false, 1), (true, 1)] ∧
      s.disk.wal.map WalRecord.lsn = [1, 2, 3, 1] ∧
      (∃ r rest, (s.session true).stage = .rollingBack rest ∧ .undo r ∈ rest ∧ (false, r) ∈ s.appended ∧
        r.type = .pageUpdate) ∧ ¬s.Apart := by
  refine ⟨_, rfl, ?_, ?_, ⟨⟨.pageUpdate, 2, 1, 0, [102], Page.zero.image, Page.zero.image, []⟩,
    ?_, ?_, ?_, ?_, rfl⟩, fun h => ?_⟩
  · rfl
  · rfl
  · exact rollbackTasks 1 [⟨.beginTransaction, 1, 1, noPageId, [], [], [], []⟩,
      ⟨.pageUpdate, 2, 1, 0, [102], Page.zero.image, Page.zero.image, []⟩,
      ⟨.commitTransaction, 3, 1, noPageId, [], [], [], []⟩,
      ⟨.beginTransaction, 1, 1, noPageId, [], [], [], []⟩]
  · rfl
  · exact List.mem_cons_of_mem _ (List.mem_cons_of_mem _ List.mem_cons_self)
  · exact List.mem_cons_of_mem _ List.mem_cons_self
  · have := h.ids false true 1 List.mem_cons_self (List.mem_cons_of_mem _ List.mem_cons_self)
    cases this

end ScratchDb
