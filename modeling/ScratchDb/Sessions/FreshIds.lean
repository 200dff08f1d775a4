import ScratchDb.Sessions.TransactionIds

/-!
# Whether ids are new to the log

Once `wal_manager` has opened a log whose ids do not exceed its LSNs, the
counter stays past every id in the file, so all ids it gives are new. An
operation that asks for its id before it opens the log gets the id 1, whatever
the log holds.
-/

namespace ScratchDb

open WalManager

namespace LoggedDatabase

/-- One call of an operation, with what its checks find. -/
inductive Call where
  | insertRow (granted madeRecord memoryTable : Bool) (body : StatementBody)
  | updateRow (granted madeRecord memoryTable : Bool) (body : StatementBody)
  | deleteRow (granted tableExists memoryTable : Bool) (body : StatementBody)
  | createTable (granted : Bool) (body : StatementBody)
  | dropTable (granted tableExists : Bool) (body : StatementBody)
  | addConstraint (granted schemaLoads validSchema : Bool) (body : StatementBody)
  | dropConstraint (granted schemaLoads found validSchema : Bool) (body : StatementBody)
  | createIndex (granted schemaLoads columnExists isNew validSchema : Bool) (body : StatementBody)
  | dropIndex (granted schemaLoads found validSchema : Bool) (body : StatementBody)
  | readRows (granted schemaLoads memoryTable : Bool)
  | begin
  | commit
  | rollback (rebuild : FileSystem → FileSystem)

namespace Call

def run : Call → DatabaseIo Bool
  | .insertRow g r m b => LoggedDatabase.insertRow g r m b
  | .updateRow g r m b => LoggedDatabase.updateRow g r m b
  | .deleteRow g e m b => LoggedDatabase.deleteRow g e m b
  | .createTable g b => LoggedDatabase.createTable g b
  | .dropTable g e b => LoggedDatabase.dropTable g e b
  | .addConstraint g l v b => LoggedDatabase.addConstraint g l v b
  | .dropConstraint g l f v b => LoggedDatabase.dropConstraint g l f v b
  | .createIndex g l c n v b => LoggedDatabase.createIndex g l c n v b
  | .dropIndex g l f v b => LoggedDatabase.dropIndex g l f v b
  | .readRows g l m => LoggedDatabase.readRows g l m
  | .begin => LoggedDatabase.beginTransaction
  | .commit => LoggedDatabase.commitTransaction
  | .rollback f => LoggedDatabase.rollbackTransaction f

/-- Made outside a transaction, the call opens the log, and asks for an id only then. -/
def opensLogFirst : Call → Bool
  | .createTable .. => true
  | .readRows _ l m => l && !m
  | .begin => true
  | _ => false

/-- Made outside a transaction, the call asks for an id, and opens the log only then. -/
def asksIdFirst : Call → Bool
  | .insertRow _ r m _ => r && !m
  | .updateRow _ r m _ => r && !m
  | .deleteRow _ e m _ => e && !m
  | .dropTable _ e _ => e
  | .addConstraint _ l v _ => l && v
  | .dropConstraint _ l f v _ => l && f && v
  | .createIndex _ l c n v _ => l && c && n && v
  | .dropIndex _ l f v _ => l && f && v
  | _ => false

/-- The eight operations that ask for an id first are one statement at different values. -/
theorem run_cases (c : Call) : (∃ shape granted body, shape.opensLogFirst = false ∧
      c.run = statement shape granted c.asksIdFirst body) ∨
    c.asksIdFirst = false ∧ (c.opensLogFirst = true ∨ (∃ g l m, c = .readRows g l m) ∨
      c = .commit ∨ ∃ f, c = .rollback f) := by
  cases c with
  | createTable => exact .inr ⟨rfl, .inl rfl⟩
  | readRows g l m => exact .inr ⟨rfl, .inr (.inl ⟨g, l, m, rfl⟩)⟩
  | begin => exact .inr ⟨rfl, .inl rfl⟩
  | commit => exact .inr ⟨rfl, .inr (.inr (.inl rfl))⟩
  | rollback f => exact .inr ⟨rfl, .inr (.inr (.inr ⟨f, rfl⟩))⟩
  | _ => exact .inl ⟨_, _, _, rfl, rfl⟩

end Call

/-- The first of the calls that needs the log or an id opens the log before it asks for an id. -/
def OpensLogFirst : List Call → Prop
  | [] => True
  | c :: cs => c.opensLogFirst = true ∨ c.asksIdFirst = false ∧ OpensLogFirst cs

/-- No record of the log is of this transaction, so undoing it takes back later records only. -/
structure FreshId (log : List WalRecord) (id : Nat) : Prop where
  absent : ∀ r ∈ log, r.transactionId ≠ id
  undone : ∀ later, rolledBack id (log ++ later) = rolledBack id later

/-- Every id given out between two states is new to the log of the first. -/
def FreshIds (s t : LoggedDatabase) : Prop :=
  ∀ new, t.given = s.given ++ new → ∀ id ∈ new, FreshId s.disk.wal id

def GivesFreshIds (s : LoggedDatabase) : List Call → Prop
  | [] => True
  | c :: cs => FreshIds s (c.run s).2 ∧ GivesFreshIds (c.run s).2 cs

theorem freshId_iff {log : List WalRecord} {id : Nat} :
    FreshId log id ↔ ∀ r ∈ log, r.transactionId ≠ id := by
  constructor
  · exact FreshId.absent
  · intro h
    refine ⟨h, fun later => ?_⟩
    have hnone : log.filter (fun r => r.transactionId == id) = [] :=
      List.filter_eq_nil_iff.mpr fun r hr => by simpa using h r hr
    rw [rolledBack_eq, rolledBack_eq, List.filter_append, hnone, List.nil_append]

/-! ## An open log stays behind the counter -/

/-- The log is open and the counter is past every id in it. -/
structure Past (s : LoggedDatabase) : Prop where
  isOpen : s.manager.isSome = true
  records : ∀ r ∈ s.disk.wal, r.transactionId < s.nextTransactionId
  active : s.activeTransactionId < s.nextTransactionId

/-- The counter has not gone back, and what it gave out lies at or after its old value. -/
structure Extends (s t : LoggedDatabase) : Prop where
  past : Past t
  counter : s.nextTransactionId ≤ t.nextTransactionId
  given : ∃ new, t.given = s.given ++ new ∧ ∀ id ∈ new, s.nextTransactionId ≤ id

theorem Past.extends_refl {s : LoggedDatabase} (h : Past s) : Extends s s :=
  ⟨h, le_rfl, [], by simp, by simp⟩

theorem Extends.trans {s t u : LoggedDatabase} (h : Extends s t) (h' : Extends t u) :
    Extends s u := by
  obtain ⟨new, hgiven, hnew⟩ := h.given
  obtain ⟨new', hgiven', hnew'⟩ := h'.given
  refine ⟨h'.past, h.counter.trans h'.counter, new ++ new', ?_, fun id hid => ?_⟩
  · rw [hgiven', hgiven, List.append_assoc]
  · rcases List.mem_append.mp hid with hid | hid
    · exact hnew id hid
    · exact h.counter.trans (hnew' id hid)

theorem Extends.freshIds {s t : LoggedDatabase} (h : Extends s t) (hs : Past s) :
    FreshIds s t := by
  intro new hnew id hid
  obtain ⟨new', hnew', hge⟩ := h.given
  rw [hnew', List.append_cancel_left_eq] at hnew
  have hle := hge id (hnew ▸ hid)
  refine freshId_iff.mpr fun r hr => ?_
  have := hs.records r hr
  omega

/-- Where the counter is at least `low`, `m` returns and keeps the counter past the log. -/
def Passes {α : Type} (low : Nat) (m : DatabaseIo α) : Prop :=
  ∀ s, Past s → low ≤ s.nextTransactionId → ∃ a t, m s = (.ok a, t) ∧ Extends s t

section Passes

variable {α β : Type} {low : Nat}

theorem passes_pure (a : α) : Passes low (pure a : DatabaseIo α) :=
  fun s hs _ => ⟨a, s, rfl, hs.extends_refl⟩

theorem passes_bind {m : DatabaseIo α} {f : α → DatabaseIo β} (hm : Passes low m)
    (hf : ∀ a, Passes low (f a)) : Passes low (m >>= f) := by
  intro s hs hlow
  obtain ⟨a, t, hrun, hext⟩ := hm s hs hlow
  obtain ⟨b, u, hrun', hext'⟩ := hf a t hext.past (hlow.trans hext.counter)
  exact ⟨b, u, by rw [Prog.bind_ok hrun, hrun'], hext.trans hext'⟩

theorem passes_get : Passes low (Prog.get : DatabaseIo LoggedDatabase) :=
  fun s hs _ => ⟨s, s, rfl, hs.extends_refl⟩

theorem passes_ite {c : Prop} [Decidable c] {m m' : DatabaseIo α} (h : Passes low m)
    (h' : Passes low m') : Passes low (if c then m else m') := by
  split
  · exact h
  · exact h'

theorem passes_modify {f : LoggedDatabase → LoggedDatabase}
    (h : ∀ s, Past s → low ≤ s.nextTransactionId → Extends s (f s)) :
    Passes low (Prog.modify f : DatabaseIo Unit) :=
  fun s hs hlow => ⟨(), f s, rfl, h s hs hlow⟩

theorem Passes.mono {low' : Nat} {m : DatabaseIo α} (h : Passes low m) (hle : low ≤ low') :
    Passes low' m :=
  fun s hs hlow => h s hs (hle.trans hlow)

/-- A call of the manager that appends under an id given earlier. -/
theorem passes_withManager {id : Nat} {m : Io α} (hm : Logs (fun r => r.transactionId = id) m) :
    Passes (id + 1) (withManager m) := by
  intro s hs hlow
  obtain ⟨a, t, hrun, rs, hwal, -, -, hid⟩ := hm ⟨s.disk, s.manager.getD ⟨0, 0⟩, []⟩
  have hrun' : withManager m s = (.ok a, { s with disk := t.disk, manager := some t.manager }) := by
    simp only [withManager, hrun]
  refine ⟨a, _, hrun', ⟨rfl, fun r hr => ?_, hs.active⟩, le_rfl, [], by simp, by simp⟩
  have hr' : r ∈ s.disk.wal ++ rs := hwal ▸ hr
  rcases List.mem_append.mp hr' with hr' | hr'
  · exact hs.records r hr'
  · have : r.transactionId = id := hid r hr'
    show r.transactionId < s.nextTransactionId
    omega

/-- Nothing happens in `wal_manager` once the log is open. -/
theorem passes_walManager : Passes low walManager := by
  intro s hs _
  rw [walManager, Prog.bind_ok (Prog.get_apply s), hs.isOpen]
  split
  · exact ⟨false, s, rfl, hs.extends_refl⟩
  · exact ⟨true, s, rfl, hs.extends_refl⟩

theorem passes_inTransaction : Passes low inTransaction :=
  passes_bind passes_get fun _ => passes_pure _

theorem takeId_apply (s : LoggedDatabase) : takeId s = (.ok s.nextTransactionId,
    { s with
      nextTransactionId := s.nextTransactionId + 1
      given := s.given ++ [s.nextTransactionId] }) := rfl

theorem Past.extends_takeId {s : LoggedDatabase} (hs : Past s) : Extends s (takeId s).2 where
  past :=
    { isOpen := hs.isOpen
      records r hr := Nat.lt_succ_of_lt (hs.records r hr)
      active := Nat.lt_succ_of_lt hs.active }
  counter := Nat.le_succ _
  given := ⟨[s.nextTransactionId], rfl, by simp⟩

/-- What follows may use that the id is behind the counter. -/
theorem passes_currentTransactionId {f : Nat → DatabaseIo β}
    (hf : ∀ id, Passes (id + 1) (f id)) : Passes low (currentTransactionId >>= f) := by
  intro s hs _
  by_cases hactive : s.activeTransactionId = 0
  · have hrun : currentTransactionId s = takeId s := by
      rw [currentTransactionId, Prog.bind_ok (Prog.get_apply s), if_neg (by simpa using hactive)]
    have hext := hs.extends_takeId
    obtain ⟨b, u, hrun', hext'⟩ := hf s.nextTransactionId _ hext.past le_rfl
    exact ⟨b, u, by rw [Prog.bind_ok (hrun.trans (takeId_apply s))]; exact hrun', hext.trans hext'⟩
  · have hrun : currentTransactionId s = (.ok s.activeTransactionId, s) := by
      rw [currentTransactionId, Prog.bind_ok (Prog.get_apply s), if_pos hactive]
      rfl
    obtain ⟨b, u, hrun', hext'⟩ := hf s.activeTransactionId s hs hs.active
    exact ⟨b, u, by rw [Prog.bind_ok hrun, hrun'], hext'⟩

end Passes

/-! ## Statements -/

theorem passes_acquireTransactionLock {low : Nat} (granted : Bool) :
    Passes low (acquireTransactionLock granted) :=
  passes_bind passes_get fun _ =>
    passes_ite (passes_pure _) (passes_ite (passes_pure _) (passes_pure _))

theorem passes_commitStatement (id : Nat) : Passes (id + 1) (commitStatement id) := by
  refine passes_bind passes_get fun s => passes_ite (passes_pure _) ?_
  refine passes_bind passes_walManager fun b => passes_ite (passes_pure _) ?_
  refine passes_bind (passes_withManager (logs_appendRecord fun _ => rfl)) fun lsn => ?_
  refine passes_ite (passes_pure _) (passes_withManager ?_)
  exact logs_bind (fun w => ⟨_, w, rfl, .refl w⟩) fun w => logs_ite (logs_pure _) logs_flush

theorem passes_rollbackStatement (id : Nat) : Passes (id + 1) (rollbackStatement id) :=
  passes_bind passes_walManager fun _ =>
    passes_ite (passes_pure _) (passes_withManager (logs_rollbackTransaction id))

theorem passes_finishStatement (id : Nat) : Passes (id + 1) (finishStatement id) :=
  passes_bind passes_inTransaction fun _ => passes_ite (passes_pure _) (passes_commitStatement id)

theorem passes_abortStatement (id : Nat) : Passes (id + 1) (abortStatement id) := by
  refine passes_bind passes_inTransaction fun within => passes_ite ?_ (passes_rollbackStatement id)
  refine passes_bind (passes_modify fun s hs _ => ?_) fun _ => passes_pure _
  split
  · exact ⟨⟨hs.isOpen, hs.records, hs.active⟩, le_rfl, [], by simp, by simp⟩
  · exact hs.extends_refl

theorem passes_beginRefused (called : Bool) (id : Nat) :
    Passes (id + 1) (beginRefused called id) := by
  refine passes_ite (passes_bind (passes_withManager ?_) fun _ => passes_pure _) (passes_pure _)
  exact logs_appendRecord fun _ => rfl

theorem passes_runStep (logged : Bool) (id : Nat) (step : StatementStep) :
    Passes (id + 1) (runStep logged id step) := by
  cases step with
  | log =>
    refine passes_ite (passes_bind (passes_withManager ?_) fun _ => passes_pure _) (passes_pure _)
    exact logs_appendRecord fun _ => rfl
  | files change =>
    exact passes_modify fun s hs _ =>
      ⟨⟨hs.isOpen, hs.records, hs.active⟩, le_rfl, [], by simp, by simp⟩

theorem passes_runSteps (logged : Bool) (id : Nat) (steps : List StatementStep) :
    Passes (id + 1) (runSteps logged id steps) := by
  induction steps with
  | nil => exact passes_pure _
  | cons step steps ih => exact passes_bind (passes_runStep logged id step) fun _ => ih

theorem passes_logStatement (shape : StatementShape) (body : StatementBody) (logged : Bool)
    (id : Nat) : Passes (id + 1) (logStatement shape body logged id) := by
  have habort : Passes (id + 1) (abortStatement id >>= fun _ => pure false) :=
    passes_bind (passes_abortStatement id) fun _ => passes_pure _
  refine passes_bind passes_inTransaction fun within => passes_bind (passes_beginRefused _ _)
    fun refused => passes_ite (passes_pure _) (passes_bind (passes_runSteps _ _ _) fun _ => ?_)
  cases body.ending with
  | succeeds =>
    exact passes_bind (passes_finishStatement id) fun b =>
      passes_ite (passes_pure _) (passes_ite habort (passes_pure _))
  | fails => exact habort
  | throws => exact passes_ite habort (passes_pure _)

theorem passes_statement (shape : StatementShape) (granted proceeds : Bool)
    (body : StatementBody) : Passes 0 (statement shape granted proceeds body) := by
  refine passes_bind (passes_acquireTransactionLock granted) fun b => passes_ite (passes_pure _) ?_
  refine passes_ite (passes_pure _) (passes_ite ?_ ?_)
  · exact passes_bind passes_walManager fun logged =>
      passes_currentTransactionId fun id => passes_logStatement shape body logged id
  · exact passes_currentTransactionId fun id =>
      passes_bind passes_walManager fun logged => passes_logStatement shape body logged id

/-! ## Transactions -/

/-- `begin_transaction` after its call of `wal_manager`. -/
theorem passes_begin (logged : Bool) : Passes 0 (do
    if ← inTransaction then pure false
    else
      let transactionId ← takeId
      Prog.modify fun s =>
        { s with activeTransactionId := transactionId, transactionAborted := false }
      if ← beginRefused logged transactionId then
        Prog.modify fun s => { s with activeTransactionId := 0 }
        pure false
      else pure true) := by
  refine passes_bind passes_inTransaction fun within => passes_ite (passes_pure _) ?_
  intro s hs _
  have hext := hs.extends_takeId
  have hrest : Passes (s.nextTransactionId + 1) (do
      Prog.modify fun t : LoggedDatabase =>
        { t with activeTransactionId := s.nextTransactionId, transactionAborted := false }
      if ← beginRefused logged s.nextTransactionId then
        Prog.modify fun s => { s with activeTransactionId := 0 }
        pure false
      else pure true) := by
    refine passes_bind (passes_modify fun t ht hlow =>
      ⟨⟨ht.isOpen, ht.records, hlow⟩, le_rfl, [], by simp, by simp⟩) fun _ => ?_
    refine passes_bind (passes_beginRefused _ _) fun refused => passes_ite ?_ (passes_pure _)
    · refine passes_bind (passes_modify fun t ht _ => ?_) fun _ => passes_pure _
      exact ⟨⟨ht.isOpen, ht.records, Nat.zero_lt_of_lt ht.active⟩, le_rfl, [], by simp, by simp⟩
  obtain ⟨b, u, hrun, hext'⟩ := hrest _ hext.past le_rfl
  exact ⟨b, u, by rw [Prog.bind_ok (takeId_apply s)]; exact hrun, hext.trans hext'⟩

theorem Past.extends_endTransaction {s : LoggedDatabase} (hs : Past s) :
    Extends s s.endTransaction :=
  ⟨⟨hs.isOpen, hs.records, Nat.zero_lt_of_lt hs.active⟩, le_rfl, [], by simp [endTransaction],
    by simp⟩

theorem passes_commitTransaction : Passes 0 commitTransaction := by
  intro s hs _
  have h : Passes (s.activeTransactionId + 1) (if s.activeTransactionId = 0 then pure false
      else do
        if !(← commitStatement s.activeTransactionId) then pure false
        else
          Prog.modify endTransaction
          pure true) := by
    refine passes_ite (passes_pure _) (passes_bind (passes_commitStatement _) fun b => ?_)
    refine passes_ite (passes_pure _) (passes_bind (passes_modify fun t ht _ => ?_) fun _ => passes_pure _)
    exact ht.extends_endTransaction
  obtain ⟨b, t, hrun, hext⟩ := h s hs hs.active
  exact ⟨b, t, by rw [commitTransaction, Prog.bind_ok (Prog.get_apply s)]; exact hrun, hext⟩

theorem passes_rollbackTransaction (rebuild : FileSystem → FileSystem) :
    Passes 0 (rollbackTransaction rebuild) := by
  intro s hs _
  have h : Passes (s.activeTransactionId + 1) (if s.activeTransactionId = 0 then pure false
      else do
        if !(← rollbackStatement s.activeTransactionId) then pure false
        else
          Prog.modify fun s =>
            endTransaction { s with disk := { s.disk with fs := rebuild s.disk.fs } }
          pure true) := by
    refine passes_ite (passes_pure _) (passes_bind (passes_rollbackStatement _) fun b => ?_)
    refine passes_ite (passes_pure _) (passes_bind (passes_modify fun t ht _ => ?_) fun _ => passes_pure _)
    exact ⟨⟨ht.isOpen, ht.records, Nat.zero_lt_of_lt ht.active⟩, le_rfl, [],
      by simp [endTransaction], by simp⟩
  obtain ⟨b, t, hrun, hext⟩ := h s hs hs.active
  exact ⟨b, t, by rw [rollbackTransaction, Prog.bind_ok (Prog.get_apply s)]; exact hrun, hext⟩

theorem passes_run (c : Call) : Passes 0 c.run := by
  cases c with
  | readRows =>
    exact passes_bind (passes_acquireTransactionLock _) fun _ =>
      passes_ite (passes_pure _) (passes_ite passes_walManager (passes_pure _))
  | begin => exact passes_bind passes_walManager passes_begin
  | commit => exact passes_commitTransaction
  | rollback f => exact passes_rollbackTransaction f
  | _ => exact passes_statement _ _ _ _

/-- Once the counter is past the log, every call gives ids that are new. -/
theorem Past.givesFreshIds {s : LoggedDatabase} (hs : Past s) (cs : List Call) :
    GivesFreshIds s cs := by
  induction cs generalizing s with
  | nil => trivial
  | cons c cs ih =>
    obtain ⟨b, t, hrun, hext⟩ := passes_run c s hs (Nat.zero_le _)
    rw [GivesFreshIds, hrun]
    exact ⟨hext.freshIds hs, ih hext.past⟩

/-! ## The first use of the log -/

/-- The constructor of `Database`. -/
def construct (disk : Disk) (directory : Path) : LoggedDatabase := { disk, directory }

/-- No record carries an id beyond the largest LSN. -/
def IdsWithinLsns (log : List WalRecord) : Prop :=
  ∀ r ∈ log, r.transactionId ≤ WalFile.maxLsn 0 log

theorem passLog_counter (s : LoggedDatabase) :
    s.nextTransactionId ≤ s.passLog.nextTransactionId ∧
      s.lastLsn < s.passLog.nextTransactionId := by
  unfold passLog
  split
  · exact ⟨Nat.le_succ_of_le ‹_›, Nat.lt_succ_self _⟩
  · exact ⟨le_rfl, by omega⟩

/-- The first call of `wal_manager` leaves the counter past the log. -/
theorem walManager_opens {s : LoggedDatabase} (hclosed : s.manager = none)
    (hdir : s.disk.fs.isDirectory s.directory = true) (hids : IdsWithinLsns s.disk.wal)
    (hactive : s.activeTransactionId < s.nextTransactionId) :
    ∃ t, walManager s = (.ok true, t) ∧ Past t ∧ t.given = s.given ∧
      s.nextTransactionId ≤ t.nextTransactionId ∧
      ∀ r ∈ s.disk.wal, r.transactionId < t.nextTransactionId := by
  -- the constructor, then `recover`
  let M := WalFile.maxLsn 0 s.disk.wal
  have hopen : withManager openLog s = (.ok (), { s with manager := some ⟨M, M⟩ }) := by
    simp only [withManager, hclosed]
    rfl
  obtain ⟨b, t, hrun, rs, hwal, -, hlsn, hnew⟩ := appends_recover
    (P := fun q => ∃ r ∈ s.disk.wal, q.transactionId = r.transactionId)
    (w := ⟨s.disk, ⟨M, M⟩, []⟩) fun r hr q hq => ⟨r, hr, hq⟩
  let u : LoggedDatabase := { s with disk := t.disk, manager := some t.manager }
  have hrecover : withManager recover { s with manager := some ⟨M, M⟩ } = (.ok b, u) := by
    simp only [withManager, Option.getD_some, hrun]
    rfl
  have hM : M ≤ u.lastLsn := by
    show M ≤ t.manager.lastLsn
    rw [hlsn, World.advance_lastLsn]
    exact (WalFile.le_maxLsn M s.disk.wal).trans (Nat.le_add_right _ _)
  obtain ⟨hcounter, hpast⟩ := u.passLog_counter
  have hold : ∀ r ∈ s.disk.wal, r.transactionId < u.passLog.nextTransactionId :=
    fun r hr => lt_of_le_of_lt ((hids r hr).trans hM) hpast
  have hfields : u.passLog.disk = t.disk ∧ u.passLog.manager = some t.manager ∧
      u.passLog.activeTransactionId = s.activeTransactionId ∧ u.passLog.given = s.given := by
    unfold passLog
    split <;> exact ⟨rfl, rfl, rfl, rfl⟩
  obtain ⟨hdisk, hmanager, hactive', hgiven⟩ := hfields
  refine ⟨u.passLog, ?_, ⟨by rw [hmanager]; rfl, fun r hr => ?_, ?_⟩, hgiven, hcounter, hold⟩
  · rw [walManager, Prog.bind_ok (Prog.get_apply s), if_neg (by simp [hdir]),
      if_neg (by simp [hclosed]), Prog.bind_ok hopen, Prog.bind_ok hrecover]
    rfl
  · rw [hdisk, hwal, World.advance_wal, appended, List.append_nil] at hr
    rcases List.mem_append.mp hr with hr | hr
    · exact hold r hr
    · obtain ⟨q, hq, heq⟩ := hnew r hr
      rw [heq]
      exact hold q hq
  · rw [hactive']
    exact lt_of_lt_of_le hactive hcounter

/-! ## The first calls of a new object -/

section Outside

variable {s : LoggedDatabase} (hout : s.activeTransactionId = 0)
include hout

theorem acquireTransactionLock_outside (granted : Bool) :
    acquireTransactionLock granted s = (.ok true, s) := by
  rw [acquireTransactionLock, Prog.bind_ok (Prog.get_apply s), if_pos hout]
  rfl

theorem statement_stopped (shape : StatementShape) (granted : Bool) (body : StatementBody) :
    statement shape granted false body s = (.ok false, s) := by
  rw [statement, Prog.bind_ok (acquireTransactionLock_outside hout granted)]
  rfl

theorem statement_opensLogFirst {shape : StatementShape} (h : shape.opensLogFirst = true)
    (granted : Bool) (body : StatementBody) : statement shape granted true body s =
      (walManager >>= fun logged =>
        currentTransactionId >>= logStatement shape body logged) s := by
  rw [statement, Prog.bind_ok (acquireTransactionLock_outside hout granted), h]
  rfl

theorem statement_asksIdFirst {shape : StatementShape} (h : shape.opensLogFirst = false)
    (granted : Bool) (body : StatementBody) : statement shape granted true body s =
      (walManager >>= fun logged => logStatement shape body logged s.nextTransactionId)
        (takeId s).2 := by
  have hid : currentTransactionId s = (.ok s.nextTransactionId, (takeId s).2) := by
    rw [currentTransactionId, Prog.bind_ok (Prog.get_apply s), if_neg (by simpa using hout)]
    rfl
  rw [statement, Prog.bind_ok (acquireTransactionLock_outside hout granted), h]
  exact Prog.bind_ok hid

/-- A call that opens the log first is `wal_manager` and a rest. -/
theorem run_of_opensLogFirst {c : Call} (h : c.opensLogFirst = true) :
    ∃ rest : Bool → DatabaseIo Bool, (∀ logged, Passes 0 (rest logged)) ∧
      c.run s = (walManager >>= rest) s := by
  cases c with
  | createTable g body =>
    exact ⟨_, fun logged => passes_currentTransactionId fun id => passes_logStatement _ body logged id,
      statement_opensLogFirst hout rfl g body⟩
  | readRows g l m =>
    refine ⟨pure, fun logged => passes_pure logged, ?_⟩
    rw [Call.opensLogFirst] at h
    rw [Call.run, readRows, Prog.bind_ok (acquireTransactionLock_outside hout g), h, Prog.bind_apply]
    show walManager s = _
    rcases walManager s with ⟨e | b, t⟩ <;> rfl
  | begin => exact ⟨_, passes_begin, rfl⟩
  | _ => cases h

/-- A call that asks for an id first takes it before `wal_manager` and a rest. -/
theorem run_of_asksIdFirst {c : Call} (h : c.asksIdFirst = true) :
    ∃ rest : Bool → DatabaseIo Bool, (∀ logged, Passes (s.nextTransactionId + 1) (rest logged)) ∧
      c.run s = (walManager >>= rest) (takeId s).2 := by
  obtain ⟨shape, g, body, hfalse, hrun⟩ | ⟨hno, -⟩ := c.run_cases
  swap
  · rw [h] at hno
    cases hno
  rw [hrun, h]
  exact ⟨_, fun logged => passes_logStatement shape body logged s.nextTransactionId,
    statement_asksIdFirst hout hfalse g body⟩

/-- Any other call returns at once. -/
theorem run_of_neither {c : Call} (h : c.opensLogFirst = false) (h' : c.asksIdFirst = false) :
    c.run s = (.ok false, s) := by
  obtain ⟨shape, g, body, -, hrun⟩ | ⟨-, hopens | ⟨g, l, m, rfl⟩ | rfl | ⟨f, rfl⟩⟩ := c.run_cases
  · rw [hrun, h']
    exact statement_stopped hout shape g body
  · rw [h] at hopens
    cases hopens
  · rw [Call.opensLogFirst] at h
    rw [Call.run, readRows, Prog.bind_ok (acquireTransactionLock_outside hout g), h]
    rfl
  · rw [Call.run, commitTransaction, Prog.bind_ok (Prog.get_apply s), if_pos hout]
    rfl
  · rw [Call.run, rollbackTransaction, Prog.bind_ok (Prog.get_apply s), if_pos hout]
    rfl

end Outside

/-- On an object just constructed over a log whose ids do not exceed its LSNs, every id that any
sequence of calls is given is new to the log as it was before the call, exactly if the first call
that needs the log opens it before it asks for an id, or transaction 1 has no record yet. -/
theorem givesFreshIds_iff {disk : Disk} {directory : Path}
    (hdir : disk.fs.isDirectory directory = true) (hids : IdsWithinLsns disk.wal)
    (calls : List Call) : GivesFreshIds (construct disk directory) calls ↔
      OpensLogFirst calls ∨ ∀ r ∈ disk.wal, r.transactionId ≠ 1 := by
  set s := construct disk directory with hs
  have hout : s.activeTransactionId = 0 := rfl
  have hactive : s.activeTransactionId < s.nextTransactionId := Nat.one_pos
  induction calls with
  | nil => simp [GivesFreshIds, OpensLogFirst]
  | cons c cs ih =>
    rw [GivesFreshIds, OpensLogFirst]
    rcases hopens : c.opensLogFirst with _ | _
    · rcases hasks : c.asksIdFirst with _ | _
      · -- the call changes nothing
        have hsame : FreshIds s s := fun new hnew => by simp [List.self_eq_append_right.mp hnew]
        rw [run_of_neither hout hopens hasks]
        show FreshIds s s ∧ GivesFreshIds s cs ↔ _
        simp [hsame, ih]
      · -- the call gets the id 1
        obtain ⟨rest, hpasses, hrun⟩ := run_of_asksIdFirst hout hasks
        obtain ⟨t, hopen, ht, hgiven, hcounter, hold⟩ :=
          walManager_opens (s := (takeId s).2) rfl hdir hids (Nat.lt_succ_of_lt hactive)
        obtain ⟨b, u, hrest, hext⟩ := hpasses true t ht hcounter
        rw [hrun, Prog.bind_ok hopen, hrest]
        have hu := hext.past.givesFreshIds cs
        obtain ⟨new, hnew, hge⟩ := hext.given
        have hgiven' : u.given = s.given ++ 1 :: new := by
          rw [hnew, hgiven]
          rfl
        have hfresh : FreshIds s u ↔ ∀ r ∈ disk.wal, r.transactionId ≠ 1 := by
          constructor
          · intro h
            exact (h _ hgiven' 1 List.mem_cons_self).absent
          · intro h new' hnew' id hid
            rw [hgiven', List.append_cancel_left_eq] at hnew'
            rcases List.mem_cons.mp (hnew' ▸ hid) with rfl | hid
            · exact freshId_iff.mpr h
            · refine freshId_iff.mpr fun r hr => ?_
              exact (lt_of_lt_of_le (hold r hr) (hge id hid)).ne
        rw [hfresh]
        simp [hu]
    · -- the call opens the log first
      obtain ⟨rest, hpasses, hrun⟩ := run_of_opensLogFirst hout hopens
      obtain ⟨t, hopen, ht, hgiven, hcounter, hold⟩ := walManager_opens rfl hdir hids hactive
      obtain ⟨b, u, hrest, hext⟩ := hpasses true t ht (Nat.zero_le _)
      rw [hrun, Prog.bind_ok hopen, hrest]
      have hfresh : FreshIds s u := by
        intro new hnew id hid
        obtain ⟨new', hnew', hge⟩ := hext.given
        rw [hnew', hgiven, List.append_cancel_left_eq] at hnew
        refine freshId_iff.mpr fun r hr => ?_
        exact (lt_of_lt_of_le (hold r hr) (hge id (hnew ▸ hid))).ne
      simp [hfresh, hext.past.givesFreshIds cs]

/-! ## A database with one table -/

/-- The directories `d` of the database and `d/t` of its table. -/
def oneTableFiles : FileSystem where
  isDirectory p := p = [[100]] ∨ p = [[100], [116]]
  text _ := none
  pages _ := none

/-- Transaction 1 has created the table. -/
def oneTableDisk : Disk where
  fs := oneTableFiles
  wal := [⟨.beginTransaction, 1, 1, noPageId, [], [], [], []⟩,
    ⟨.createTable, 2, 1, noPageId, [100, 47, 116], [], [1], []⟩,
    ⟨.commitTransaction, 3, 1, noPageId, [], [], [], []⟩]

/-- An insertion into a disk table that finds no room in a unique index. -/
def refusedInsert : Call := .insertRow true true false ⟨[], .fails⟩

theorem givesFreshIds_iff_transaction :
    GivesFreshIds (construct oneTableDisk [[100]]) [.begin, refusedInsert, .commit, .rollback id] :=
  (givesFreshIds_iff (by decide) (by unfold IdsWithinLsns; decide) _).mpr (.inl (.inl rfl))

/-- The refused insertion is given the id 1, and undoing it removes the table. -/
theorem refusedInsert_removes_table :
    (¬GivesFreshIds (construct oneTableDisk [[100]]) [refusedInsert]) ∧
      oneTableFiles.isDirectory [[100], [116]] = true ∧
      (refusedInsert.run (construct oneTableDisk [[100]])).2.disk.fs.isDirectory [[100], [116]] =
        false := by
  have hgiven : (refusedInsert.run (construct oneTableDisk [[100]])).2.given = [1] := by decide
  refine ⟨fun h => ?_, by decide, by decide⟩
  exact (h.1 [1] hgiven 1 List.mem_cons_self).absent _ List.mem_cons_self rfl

end LoggedDatabase

end ScratchDb
