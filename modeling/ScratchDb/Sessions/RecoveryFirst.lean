import ScratchDb.Sessions.FirstUse
import ScratchDb.Sessions.FreshIds
import ScratchDb.Sessions.RefusedTables

/-!
# Operations before the recovery

The first operation of a new object and the same operation behind a completed
recovery. An operation that writes takes its id from a counter that has not yet
passed the log, one that returns early does not recover at all, and what an
operation has read of the catalog or of an index file before it opens the log is
not read again.
-/

namespace ScratchDb.FirstUse

open LoggedDatabase WalManager

/-! ## Opening the log -/

/-- A new object. -/
structure Fresh (s : LoggedDatabase) : Prop where
  closed : s.manager = none
  outside : s.activeTransactionId = 0
  counter : s.nextTransactionId = 1

/-- The log that the constructor of the manager has opened, recovered. -/
def recoveredWorld (disk : Disk) : World :=
  (recover ⟨disk, ⟨WalFile.maxLsn 0 disk.wal, WalFile.maxLsn 0 disk.wal⟩, []⟩).2

/-- The object with the recovered log. -/
def opened (s : LoggedDatabase) : LoggedDatabase :=
  passLog { s with
    disk := (recoveredWorld s.disk).disk
    manager := some (recoveredWorld s.disk).manager }

theorem walManager_closed {s : LoggedDatabase} (h : s.manager = none)
    (hdir : s.disk.fs.isDirectory s.directory = true) : walManager s = (.ok true, opened s) := by
  have hopen : withManager openLog s =
      (.ok (), { s with manager := some ⟨WalFile.maxLsn 0 s.disk.wal, WalFile.maxLsn 0 s.disk.wal⟩ }) := by
    simp only [withManager, h]
    rfl
  obtain ⟨b, t, hrun, -⟩ := appends_recover (P := fun _ => True)
    (w := ⟨s.disk, ⟨WalFile.maxLsn 0 s.disk.wal, WalFile.maxLsn 0 s.disk.wal⟩, []⟩)
    fun _ _ _ _ => trivial
  have hrecover : withManager recover
      { s with manager := some ⟨WalFile.maxLsn 0 s.disk.wal, WalFile.maxLsn 0 s.disk.wal⟩ } =
      (.ok b, { s with disk := t.disk, manager := some t.manager }) := by
    simp only [withManager, Option.getD_some, hrun]
  rw [walManager, Prog.bind_ok (Prog.get_apply s), if_neg (by simp [hdir]), if_neg (by simp [h]),
    Prog.bind_ok hopen, Prog.bind_ok hrecover]
  unfold opened recoveredWorld
  rw [hrun]
  rfl

theorem walManager_noDirectory {s : LoggedDatabase}
    (hdir : s.disk.fs.isDirectory s.directory = false) : walManager s = (.ok false, s) := by
  rw [walManager, Prog.bind_ok (Prog.get_apply s), if_pos (by simp [hdir])]
  rfl

/-- An open log is not recovered again. -/
theorem walManager_open {s : LoggedDatabase} (h : s.manager.isSome = true) :
    walManager s = (.ok (s.disk.fs.isDirectory s.directory), s) := by
  rw [walManager, Prog.bind_ok (Prog.get_apply s), h]
  cases hdir : s.disk.fs.isDirectory s.directory with
  | false => rfl
  | true => rfl

theorem opened_fields (s : LoggedDatabase) :
    (opened s).disk = (recoveredWorld s.disk).disk ∧
      (opened s).manager = some (recoveredWorld s.disk).manager ∧
      (opened s).activeTransactionId = s.activeTransactionId ∧
      (opened s).directory = s.directory ∧ (opened s).given = s.given := by
  unfold opened passLog
  split
  · exact ⟨rfl, rfl, rfl, rfl, rfl⟩
  · exact ⟨rfl, rfl, rfl, rfl, rfl⟩

/-- Recovery appends to the log. -/
theorem recoveredWorld_wal (disk : Disk) :
    (∃ rs, (recoveredWorld disk).disk.wal = disk.wal ++ rs) ∧
      WalFile.maxLsn 0 disk.wal ≤ (recoveredWorld disk).manager.lastLsn := by
  obtain ⟨b, t, hrun, rs, hwal, -, hlsn, -⟩ := appends_recover (P := fun _ => True)
    (w := ⟨disk, ⟨WalFile.maxLsn 0 disk.wal, WalFile.maxLsn 0 disk.wal⟩, []⟩)
    fun _ _ _ _ => trivial
  unfold recoveredWorld
  rw [hrun]
  refine ⟨⟨rs, ?_⟩, ?_⟩
  · rw [hwal, World.advance_wal, appended, List.append_nil]
  · rw [hlsn, World.advance_lastLsn]
    exact (WalFile.le_maxLsn _ _).trans (Nat.le_add_right _ _)

/-- There is nothing to recover in an empty log. -/
theorem recoveredWorld_nil {disk : Disk} (h : disk.wal = []) :
    (recoveredWorld disk).disk = disk ∧ (recoveredWorld disk).manager = ⟨0, 0⟩ := by
  cases disk with
  | mk fs wal =>
    cases h
    exact ⟨rfl, rfl⟩

/-! ## The directory of the database -/

/-- `m` does not remove the directory. -/
def Stays {α : Type} (d : Path) (m : Io α) : Prop :=
  ∀ w, w.disk.fs.isDirectory d = true → (m w).2.disk.fs.isDirectory d = true

section Stays

variable {α β : Type} {d : Path}

theorem stays_pure (a : α) : Stays d (pure a : Io α) := fun _ h => h

theorem stays_get : Stays d (Prog.get : Io World) := fun _ h => h

theorem stays_bind {m : Io α} {f : α → Io β} (hm : Stays d m) (hf : ∀ a, Stays d (f a)) :
    Stays d (m >>= f) := by
  intro w hw
  have ht := hm w hw
  rw [Prog.bind_apply]
  cases hrun : m w with
  | mk out t =>
    rw [hrun] at ht
    cases out with
    | error e => exact ht
    | ok a => exact hf a t ht

theorem stays_ite {c : Prop} [Decidable c] {m m' : Io α} (h : Stays d m) (h' : Stays d m') :
    Stays d (if c then m else m') := by
  split
  · exact h
  · exact h'

theorem stays_perform {e : Effect} (he : ∀ p, e = .removeAll p → p.isPrefixOf d = false) :
    Stays d (perform e) := by
  intro w hw
  unfold perform
  split
  · cases e with
    | removeAll p =>
      show (w.disk.fs.isDirectory d && !p.isPrefixOf d) = true
      rw [hw, he p rfl]
      rfl
    | createDirectories p =>
      show (w.disk.fs.isDirectory d || d.isPrefixOf p) = true
      rw [hw, Bool.true_or]
    | append r => exact hw
    | openCreate p => exact hw
    | truncateText p => exact hw
    | writeText p text => exact hw
    | replaceText p text => exact hw
    | writePage p k page => exact hw
  · exact hw

theorem stays_appendRecord {type : WalRecordType} {t : Nat} {file : Bytes} {k : Nat}
    {before after : Bytes} {ids : List Nat} :
    Stays d (appendRecord type t file k before after ids) := by
  refine stays_bind stays_get fun w => stays_bind (stays_perform (by simp)) fun b => ?_
  exact stays_ite (stays_pure _) (stays_bind (fun _ h => h) fun _ => stays_pure _)

theorem stays_writePageImage (r : WalRecord) (image : Bytes) (lsn : Nat) :
    Stays d (writePageImage r image lsn) := by
  refine stays_ite (stays_pure _) (stays_bind (stays_perform (by simp)) fun b => ?_)
  exact stays_ite (stays_pure _) (stays_perform (by simp))

theorem stays_writeSchemaText (tableDir image : Bytes) : Stays d (writeSchemaText tableDir image) := by
  refine stays_ite (stays_pure _) (stays_bind (stays_perform (by simp)) fun b => ?_)
  refine stays_ite (stays_pure _) (stays_bind (stays_perform (by simp)) fun b => ?_)
  exact stays_ite (stays_pure _) (stays_perform (by simp))

theorem stays_redoCreateTable (r : WalRecord) : Stays d (redoCreateTable r) := by
  refine stays_ite (stays_pure _) (stays_bind (stays_perform (by simp)) fun b => ?_)
  refine stays_ite (stays_pure _) (stays_bind (stays_perform (by simp)) fun b => ?_)
  refine stays_ite (stays_pure _) (stays_bind (stays_perform (by simp)) fun b => ?_)
  exact stays_ite (stays_pure _) (stays_perform (by simp))

theorem stays_redoDropTable {r : WalRecord} (h : (pathOf r.tableFile).isPrefixOf d = false) :
    Stays d (redoDropTable r) := by
  refine stays_ite (stays_pure _) (stays_perform fun p hp => ?_)
  rw [← Effect.removeAll.inj hp, h]

/-- Tables lie below the directory. -/
def Below (d : Path) (r : WalRecord) : Prop :=
  r.type = .createTable ∨ r.type = .dropTable → (pathOf r.tableFile).isPrefixOf d = false

theorem stays_redoRecord {r : WalRecord} (h : Below d r) : Stays d (redoRecord r) := by
  unfold redoRecord
  split
  · exact stays_writePageImage _ _ _
  · split
    · exact stays_redoCreateTable r
    · split
      · rename_i hdrop
        exact stays_redoDropTable (h (.inr hdrop))
      · exact stays_ite (stays_writeSchemaText _ _) (stays_pure _)

theorem stays_undoRecord {r : WalRecord} (h : Below d r) : Stays d (undoRecord r) := by
  unfold undoRecord
  split
  · exact stays_bind stays_appendRecord fun lsn =>
      stays_ite (stays_pure _) (stays_writePageImage _ _ _)
  · split
    · rename_i hcreate
      exact stays_bind stays_appendRecord fun lsn =>
        stays_ite (stays_pure _) (stays_redoDropTable (h (.inl hcreate)))
    · refine stays_ite (stays_bind stays_appendRecord fun lsn => ?_) (stays_pure _)
      exact stays_ite (stays_pure _) (stays_writeSchemaText _ _)

theorem stays_redoLoop (skips : WalRecord → Bool) {rs : List WalRecord} (h : ∀ r ∈ rs, Below d r) :
    Stays d (redoLoop skips rs) := by
  induction rs with
  | nil => exact stays_pure _
  | cons r rs ih =>
    have hrest := ih fun q hq => h q (List.mem_cons_of_mem r hq)
    exact stays_ite hrest (stays_bind (stays_redoRecord (h r List.mem_cons_self)) fun b =>
      stays_ite (stays_pure _) hrest)

theorem stays_undoLoop (chosen : Nat → Bool) {rs : List WalRecord} (h : ∀ r ∈ rs, Below d r) :
    Stays d (undoLoop chosen rs) := by
  induction rs with
  | nil => exact stays_pure _
  | cons r rs ih =>
    have hrest := ih fun q hq => h q (List.mem_cons_of_mem r hq)
    exact stays_ite hrest (stays_bind (stays_undoRecord (h r List.mem_cons_self)) fun b =>
      stays_ite (stays_pure _) hrest)

theorem stays_abortLoop (ids : List Nat) : Stays d (abortLoop ids) := by
  induction ids with
  | nil => exact stays_pure _
  | cons id ids ih =>
    exact stays_bind stays_appendRecord fun lsn => stays_ite (stays_pure _) ih

/-- Recovery does not remove the directory of the database. -/
theorem stays_recover {w : World} (h : ∀ r ∈ w.disk.wal, Below d r)
    (hw : w.disk.fs.isDirectory d = true) : (recover w).2.disk.fs.isDirectory d = true := by
  rw [recover, Prog.bind_ok (readAllRecords_eq w), Prog.bind_ok (adoptLsns_eq _ w)]
  refine stays_bind (stays_redoLoop _ h) (fun b => stays_ite (stays_pure _) ?_) _ hw
  refine stays_bind (stays_undoLoop _ fun r hr => h r (List.mem_reverse.mp hr)) fun b =>
    stays_ite (stays_pure _) ?_
  exact stays_bind (stays_abortLoop _) fun b =>
    stays_ite (stays_pure _) (stays_bind (fun _ h => h) fun _ => stays_pure _)

end Stays

/-! ## What a statement appends -/

/-- Where the log is open, `m` returns and appends records of the transaction `id`. -/
def Grows {α : Type} (id : Nat) (m : DatabaseIo α) : Prop :=
  ∀ s, s.manager.isSome = true → ∃ a t rs, m s = (.ok a, t) ∧ t.manager.isSome = true ∧
    t.disk.wal = s.disk.wal ++ rs ∧ ∀ r ∈ rs, r.transactionId = id

section Grows

variable {α β : Type} {id : Nat}

theorem grows_pure (a : α) : Grows id (pure a : DatabaseIo α) :=
  fun s hs => ⟨a, s, [], rfl, hs, by simp, by simp⟩

theorem grows_get : Grows id (Prog.get : DatabaseIo LoggedDatabase) :=
  fun s hs => ⟨s, s, [], rfl, hs, by simp, by simp⟩

theorem grows_bind {m : DatabaseIo α} {f : α → DatabaseIo β} (hm : Grows id m)
    (hf : ∀ a, Grows id (f a)) : Grows id (m >>= f) := by
  intro s hs
  obtain ⟨a, t, rs, hrun, ht, hwal, hrs⟩ := hm s hs
  obtain ⟨b, u, rs', hrun', hu, hwal', hrs'⟩ := hf a t ht
  refine ⟨b, u, rs ++ rs', by rw [Prog.bind_ok hrun, hrun'], hu, ?_, fun r hr => ?_⟩
  · rw [hwal', hwal, List.append_assoc]
  · rcases List.mem_append.mp hr with hr | hr
    · exact hrs r hr
    · exact hrs' r hr

theorem grows_ite {c : Prop} [Decidable c] {m m' : DatabaseIo α} (h : Grows id m)
    (h' : Grows id m') : Grows id (if c then m else m') := by
  split
  · exact h
  · exact h'

theorem grows_modify {f : LoggedDatabase → LoggedDatabase}
    (hf : ∀ s, (f s).manager = s.manager ∧ (f s).disk.wal = s.disk.wal) :
    Grows id (Prog.modify f : DatabaseIo Unit) :=
  fun s hs => ⟨(), f s, [], rfl, by rw [(hf s).1, hs], by rw [(hf s).2, List.append_nil], by simp⟩

theorem grows_withManager {m : Io α} (hm : Logs (fun r => r.transactionId = id) m) :
    Grows id (withManager m) := by
  intro s _
  obtain ⟨a, t, hrun, rs, hwal, -, -, hrs⟩ := hm ⟨s.disk, s.manager.getD ⟨0, 0⟩, []⟩
  exact ⟨a, { s with disk := t.disk, manager := some t.manager }, rs,
    by simp only [withManager, hrun], rfl, hwal, hrs⟩

theorem grows_walManager : Grows id walManager :=
  fun s hs => ⟨_, s, [], walManager_open hs, hs, by simp, by simp⟩

theorem grows_inTransaction : Grows id inTransaction := grows_bind grows_get fun _ => grows_pure _

theorem grows_commitStatement : Grows id (commitStatement id) := by
  refine grows_bind grows_get fun s => grows_ite (grows_pure _) ?_
  refine grows_bind grows_walManager fun b => grows_ite (grows_pure _) ?_
  refine grows_bind (grows_withManager (logs_appendRecord fun _ => rfl)) fun lsn => ?_
  refine grows_ite (grows_pure _) (grows_withManager ?_)
  exact logs_bind (fun w => ⟨_, w, rfl, .refl w⟩) fun w => logs_ite (logs_pure _) logs_flush

theorem grows_rollbackStatement : Grows id (rollbackStatement id) :=
  grows_bind grows_walManager fun _ =>
    grows_ite (grows_pure _) (grows_withManager (logs_rollbackTransaction id))

theorem grows_finishStatement : Grows id (finishStatement id) :=
  grows_bind grows_inTransaction fun _ => grows_ite (grows_pure _) grows_commitStatement

theorem grows_abortStatement : Grows id (abortStatement id) := by
  refine grows_bind grows_inTransaction fun within => grows_ite ?_ grows_rollbackStatement
  refine grows_bind (grows_modify fun s => ?_) fun _ => grows_pure _
  split
  · exact ⟨rfl, rfl⟩
  · exact ⟨rfl, rfl⟩

theorem grows_runSteps (logged : Bool) (steps : List StatementStep) :
    Grows id (runSteps logged id steps) := by
  induction steps with
  | nil => exact grows_pure _
  | cons step steps ih =>
    refine grows_bind ?_ fun _ => ih
    cases step with
    | log type tableFile pageId before after =>
      exact grows_ite (grows_bind (grows_withManager (logs_appendRecord fun _ => rfl)) fun _ =>
        grows_pure _) (grows_pure _)
    | files change => exact grows_modify fun s => ⟨rfl, rfl⟩

/-- A statement once its steps have been run. -/
def endStatement (shape : StatementShape) (ending : StatementEnd) (transactionId : Nat) :
    DatabaseIo Bool :=
  match ending with
  | .succeeds => do
    if ← finishStatement transactionId then pure true
    else if shape.abortsUnfinished then do
      let _ ← abortStatement transactionId
      pure false
    else pure false
  | .fails => do
    let _ ← abortStatement transactionId
    pure false
  | .throws =>
    if shape.abortsOnThrow then do
      let _ ← abortStatement transactionId
      pure false
    else pure false

theorem logStatement_eq (shape : StatementShape) (body : StatementBody) (logged : Bool) :
    logStatement shape body logged id = (do
      let within ← inTransaction
      if ← beginRefused (!within && logged) id then pure false
      else do
        runSteps logged id body.steps
        endStatement shape body.ending id) := by
  rfl

theorem grows_endStatement (shape : StatementShape) (ending : StatementEnd) :
    Grows id (endStatement shape ending id) := by
  have habort : Grows id (abortStatement id >>= fun _ => pure false) :=
    grows_bind grows_abortStatement fun _ => grows_pure _
  cases ending with
  | succeeds =>
    exact grows_bind grows_finishStatement fun b =>
      grows_ite (grows_pure _) (grows_ite habort (grows_pure _))
  | fails => exact habort
  | throws => exact grows_ite habort (grows_pure _)

theorem grows_logStatement (shape : StatementShape) (body : StatementBody) (logged : Bool) :
    Grows id (logStatement shape body logged id) := by
  rw [logStatement_eq]
  refine grows_bind grows_inTransaction fun within => grows_bind ?_ fun refused =>
    grows_ite (grows_pure _) (grows_bind (grows_runSteps logged body.steps) fun _ =>
      grows_endStatement shape body.ending)
  exact grows_ite (grows_bind (grows_withManager (logs_appendRecord fun _ => rfl)) fun _ =>
    grows_pure _) (grows_pure _)

/-- A statement outside a transaction begins with a record. -/
theorem logStatement_begins {s : LoggedDatabase}
    (hout : s.activeTransactionId = 0) (shape : StatementShape) (body : StatementBody) :
    ∃ b t rs, logStatement shape body true id s = (.ok b, t) ∧ t.disk.wal = s.disk.wal ++ rs ∧
      rs ≠ [] ∧ ∀ r ∈ rs, r.transactionId = id := by
  let r : WalRecord := ⟨.beginTransaction, s.lastLsn + 1, id, noPageId, [], [], [], []⟩
  have hbegin : withManager (WalManager.beginTransaction id) s = (.ok (s.lastLsn + 1), s.withRecord r) :=
    withManager_appendRecord ..
  have hrefused : beginRefused true id s = (.ok false, s.withRecord r) := by
    rw [beginRefused, if_pos rfl, Prog.bind_ok hbegin]
    simp
  obtain ⟨b, u, rs, hrun, -, hwal', hrs⟩ :=
    grows_bind (@grows_runSteps id true body.steps) (fun _ => grows_endStatement shape body.ending)
      (s.withRecord r) rfl
  refine ⟨b, u, r :: rs, ?_, ?_, by simp, ?_⟩
  · have hwithin : inTransaction s = (.ok false, s) := by
      rw [inTransaction, Prog.bind_ok (Prog.get_apply s), hout]
      rfl
    rw [logStatement_eq, Prog.bind_ok hwithin]
    exact (Prog.bind_ok hrefused).trans hrun
  · rw [hwal']
    show s.disk.wal ++ [r] ++ rs = _
    rw [List.append_assoc, List.singleton_append]
  · intro q hq
    rcases List.mem_cons.mp hq with rfl | hq
    · rfl
    · exact hrs q hq

end Grows

/-! ## Operations and the same operations behind a recovery -/

/-- The object once the log has been opened. -/
def recoveredFirst (s : LoggedDatabase) : LoggedDatabase := (walManager s).2

/-- The operation returns the same and leaves the same disk whether or not the log has been opened
and recovered before it. -/
def SameAsRecovered {α : Type} (m : DatabaseIo α) (s : LoggedDatabase) : Prop :=
  (m s).1 = (m (recoveredFirst s)).1 ∧ (m s).2.disk = (m (recoveredFirst s)).2.disk

/-- There is nothing to recover. -/
def Idle (s : LoggedDatabase) : Prop := (recoveredFirst s).disk = s.disk

section Operations

variable {s : LoggedDatabase} {root : Bytes} {code : StorageCode}

theorem recoveredFirst_noDirectory (hdir : s.disk.fs.isDirectory s.directory = false) :
    recoveredFirst s = s := by
  rw [recoveredFirst, walManager_noDirectory hdir]

theorem recoveredFirst_closed (h : Fresh s) (hdir : s.disk.fs.isDirectory s.directory = true) :
    recoveredFirst s = opened s := by
  rw [recoveredFirst, walManager_closed h.closed hdir]

/-- Nothing more happens where the log is opened again. -/
theorem walManager_recoveredFirst (h : Fresh s) :
    ∃ b, walManager s = (.ok b, recoveredFirst s) ∧
      walManager (recoveredFirst s) = (.ok ((recoveredFirst s).disk.fs.isDirectory s.directory),
        recoveredFirst s) := by
  cases hdir : s.disk.fs.isDirectory s.directory with
  | false =>
    rw [recoveredFirst_noDirectory hdir]
    exact ⟨false, walManager_noDirectory hdir, by rw [walManager_noDirectory hdir, hdir]⟩
  | true =>
    rw [recoveredFirst_closed h hdir]
    obtain ⟨-, hmanager, -, hdirectory, -⟩ := opened_fields s
    refine ⟨true, walManager_closed h.closed hdir, ?_⟩
    rw [walManager_open (by rw [hmanager]; rfl), hdirectory]

theorem exists_goesOn {α : Type} {early : Early α} (h : ¬ early.isOver = true) :
    ∃ work, early = .goesOn work := by
  cases early with
  | answers answer => exact absurd rfl h
  | throws => exact absurd rfl h
  | goesOn work => exact ⟨work, rfl⟩

/-! ### Operations that write -/

/-- The object once an id has been taken. -/
def taken (s : LoggedDatabase) : LoggedDatabase :=
  { s with
    nextTransactionId := s.nextTransactionId + 1
    given := s.given ++ [s.nextTransactionId] }

theorem performWrite_over {early : FileSystem → Early Write} (h : (early s.disk.fs).isOver = true) :
    ∃ answer, performWrite early s = (answer, s) ∧
      ∀ t : LoggedDatabase, t.disk = s.disk → performWrite early t = (answer, t) := by
  unfold performWrite
  cases hearly : early s.disk.fs with
  | answers answer =>
    refine ⟨.ok answer, ?_, fun t ht => ?_⟩
    · rw [Prog.bind_ok (Prog.get_apply s), hearly]
      rfl
    · rw [Prog.bind_ok (Prog.get_apply t), ht, hearly]
      rfl
  | throws =>
    refine ⟨.error .exception, ?_, fun t ht => ?_⟩
    · rw [Prog.bind_ok (Prog.get_apply s), hearly]
      rfl
    · rw [Prog.bind_ok (Prog.get_apply t), ht, hearly]
      rfl
  | goesOn write =>
    rw [hearly] at h
    cases h

/-- The id is taken, the log is opened, and the statement follows. -/
theorem performWrite_goesOn {early : FileSystem → Early Write} {write : Write}
    (hout : s.activeTransactionId = 0) (h : early s.disk.fs = .goesOn write) {logged : Bool}
    {t : LoggedDatabase} (hwal : walManager (taken s) = (.ok logged, t)) :
    performWrite early s =
      (do
        let ok ← logStatement write.shape (write.body t.disk.fs) logged s.nextTransactionId
        pure (write.answer ok t.disk.fs) : DatabaseIo Answer) t := by
  have hid : currentTransactionId s = (.ok s.nextTransactionId, taken s) := by
    rw [currentTransactionId, Prog.bind_ok (Prog.get_apply s), if_neg (by simpa using hout)]
    rfl
  rw [performWrite, Prog.bind_ok (Prog.get_apply s), h]
  dsimp only
  rw [Prog.bind_ok hid, Prog.bind_ok hwal, Prog.bind_ok (Prog.get_apply t)]

/-- What an operation that writes has appended behind the recovery is of its own transaction. -/
theorem performWrite_grows {early : FileSystem → Early Write} (hmanager : s.manager.isSome = true)
    (hout : s.activeTransactionId = 0) :
    ∃ rs, (performWrite early s).2.disk.wal = s.disk.wal ++ rs ∧
      ∀ r ∈ rs, r.transactionId = s.nextTransactionId := by
  cases hearly : early s.disk.fs with
  | answers answer =>
    obtain ⟨a, hrun, -⟩ := @performWrite_over s early (by rw [hearly]; rfl)
    exact ⟨[], by rw [hrun, List.append_nil], by simp⟩
  | throws =>
    obtain ⟨a, hrun, -⟩ := @performWrite_over s early (by rw [hearly]; rfl)
    exact ⟨[], by rw [hrun, List.append_nil], by simp⟩
  | goesOn write =>
    have hopen : walManager (taken s) =
        (.ok (s.disk.fs.isDirectory s.directory), taken s) := walManager_open hmanager
    rw [performWrite_goesOn hout hearly hopen]
    obtain ⟨b, u, rs, hrun, -, hwal, hrs⟩ :=
      grows_bind (grows_logStatement write.shape (write.body s.disk.fs)
        (s.disk.fs.isDirectory s.directory)) (fun ok => grows_pure (write.answer ok s.disk.fs))
        (taken s) hmanager
    exact ⟨rs, (congrArg (fun out => out.2.disk.wal) hrun).trans hwal, hrs⟩

/-- The disk of an object does not depend on its counter when it opens the log. -/
theorem walManager_takeId (h : Fresh s) (hdir : s.disk.fs.isDirectory s.directory = true) :
    ∃ t, walManager (taken s) = (.ok true, t) ∧ t.disk = (recoveredFirst s).disk ∧
      t.manager.isSome = true ∧ t.activeTransactionId = 0 := by
  have hrun : walManager (taken s) = (.ok true, opened (taken s)) := walManager_closed h.closed hdir
  obtain ⟨hdisk, hmanager, hactive, -⟩ := opened_fields (taken s)
  refine ⟨_, hrun, ?_, by rw [hmanager]; rfl, hactive.trans h.outside⟩
  rw [hdisk, recoveredFirst_closed h hdir, (opened_fields s).1]
  rfl

/-- The counter of a new object whose log has records. -/
theorem nextTransactionId_recoveredFirst (h : Fresh s)
    (hdir : s.disk.fs.isDirectory s.directory = true) (hlsn : ∀ r ∈ s.disk.wal, 0 < r.lsn)
    (hwal : s.disk.wal ≠ []) : 1 < (recoveredFirst s).nextTransactionId := by
  rw [recoveredFirst_closed h hdir]
  obtain ⟨r, hr⟩ := List.exists_mem_of_ne_nil _ hwal
  have hmax := @WalFile.lsn_le_maxLsn 0 _ _ hr
  have hlast := (recoveredWorld_wal s.disk).2
  have hpos := hlsn r hr
  have hcounter := (passLog_counter { s with
    disk := (recoveredWorld s.disk).disk
    manager := some (recoveredWorld s.disk).manager }).2
  have hlastLsn : LoggedDatabase.lastLsn { s with
    disk := (recoveredWorld s.disk).disk
    manager := some (recoveredWorld s.disk).manager } = (recoveredWorld s.disk).manager.lastLsn := rfl
  rw [hlastLsn] at hcounter
  show 1 < (opened s).nextTransactionId
  unfold opened
  omega

theorem performWrite_idle {early : FileSystem → Early Write} (hidle : Idle s)
    (hover : (early s.disk.fs).isOver = true) : SameAsRecovered (performWrite early) s := by
  obtain ⟨a, hrun, hall⟩ := performWrite_over hover
  rw [SameAsRecovered, hrun, hall (recoveredFirst s) hidle]
  exact ⟨rfl, hidle.symm⟩

/-- With an empty log the two objects differ in nothing that an operation reads. -/
theorem performWrite_emptyLog {early : FileSystem → Early Write} (h : Fresh s)
    (hwal : s.disk.wal = []) : SameAsRecovered (performWrite early) s := by
  cases hdir : s.disk.fs.isDirectory s.directory with
  | false =>
    unfold SameAsRecovered
    rw [recoveredFirst_noDirectory hdir]
    exact ⟨rfl, rfl⟩
  | true =>
    obtain ⟨hdisk, hmanager⟩ := recoveredWorld_nil hwal
    have hopened : ∀ t : LoggedDatabase, t.disk = s.disk → t.nextTransactionId ≠ 0 →
        opened t = { t with manager := some ⟨0, 0⟩ } := by
      intro t ht hnext
      unfold opened
      rw [ht, hdisk, hmanager]
      unfold passLog
      rw [if_neg (by simpa [LoggedDatabase.lastLsn] using hnext), ← ht]
    have hfirst : recoveredFirst s = { s with manager := some ⟨0, 0⟩ } := by
      rw [recoveredFirst_closed h hdir, hopened s rfl (by rw [h.counter]; decide)]
    cases hearly : early s.disk.fs with
    | goesOn write =>
      have hrun : walManager (taken s) = (.ok true, { taken s with manager := some ⟨0, 0⟩ }) := by
        rw [walManager_closed (s := taken s) h.closed hdir, hopened (taken s) rfl (Nat.succ_ne_zero _)]
      have hrun' : walManager (taken { s with manager := some ⟨0, 0⟩ }) =
          (.ok true, { taken s with manager := some ⟨0, 0⟩ }) := by
        rw [walManager_open rfl]
        exact congrArg (fun b => (Except.ok b, _)) hdir
      have heq : performWrite early s = performWrite early (recoveredFirst s) := by
        rw [hfirst, performWrite_goesOn h.outside hearly hrun,
          performWrite_goesOn (s := { s with manager := some ⟨0, 0⟩ }) h.outside hearly hrun']
      exact ⟨congrArg Prod.fst heq, congrArg (fun out => out.2.disk) heq⟩
    | answers answer => exact performWrite_idle (by rw [Idle, hfirst]) (by rw [hearly]; rfl)
    | throws => exact performWrite_idle (by rw [Idle, hfirst]) (by rw [hearly]; rfl)

/-- The records of the statement, and of no other, tell the two ids apart. -/
theorem performWrite_same_iff {early : FileSystem → Early Write} (h : Fresh s)
    (hlsn : ∀ r ∈ s.disk.wal, 0 < r.lsn) (hbelow : ∀ r ∈ s.disk.wal, Below s.directory r) :
    SameAsRecovered (performWrite early) s ↔
      s.disk.wal = [] ∨ s.disk.fs.isDirectory s.directory = false ∨
        Idle s ∧ (early s.disk.fs).isOver = true := by
  constructor
  · rintro ⟨-, hdisk⟩
    by_cases hwal : s.disk.wal = []
    · exact .inl hwal
    cases hdir : s.disk.fs.isDirectory s.directory with
    | false => exact .inr (.inl rfl)
    | true =>
      have hmanager : (recoveredFirst s).manager.isSome = true := by
        rw [recoveredFirst_closed h hdir, (opened_fields s).2.1]
        rfl
      have hactive : (recoveredFirst s).activeTransactionId = 0 := by
        rw [recoveredFirst_closed h hdir, (opened_fields s).2.2.1, h.outside]
      obtain ⟨rs', hwal', hrs'⟩ := @performWrite_grows _ early hmanager hactive
      obtain ⟨⟨old, hold⟩, -⟩ := recoveredWorld_wal s.disk
      have hrecovered : (recoveredFirst s).disk.wal = s.disk.wal ++ old := by
        rw [recoveredFirst_closed h hdir, (opened_fields s).1, hold]
      by_cases hover : (early s.disk.fs).isOver = true
      · -- The operation ends on the files as they are, so it has appended nothing.
        refine .inr (.inr ⟨?_, hover⟩)
        obtain ⟨a, hrun, -⟩ := performWrite_over hover
        rw [hrun] at hdisk
        by_cases hover' : (early (recoveredFirst s).disk.fs).isOver = true
        · obtain ⟨a', hrun', -⟩ := performWrite_over hover'
          rw [hrun'] at hdisk
          exact hdisk.symm
        · exfalso
          obtain ⟨write, hearly⟩ := exists_goesOn hover'
          have hdir' : (recoveredFirst s).disk.fs.isDirectory (recoveredFirst s).directory = true := by
            rw [recoveredFirst_closed h hdir, (opened_fields s).1, (opened_fields s).2.2.2.1]
            exact stays_recover hbelow hdir
          have hopen : walManager (taken (recoveredFirst s)) = (.ok true, taken (recoveredFirst s)) := by
            rw [walManager_open (s := taken (recoveredFirst s)) hmanager]
            exact congrArg (fun b => (Except.ok b, _)) hdir'
          obtain ⟨b, u, rs, hstatement, hlog, hne, -⟩ :=
            @logStatement_begins (recoveredFirst s).nextTransactionId (taken (recoveredFirst s))
              hactive write.shape (write.body (taken (recoveredFirst s)).disk.fs)
          have hright : (performWrite early (recoveredFirst s)).2.disk.wal =
              (recoveredFirst s).disk.wal ++ rs := by
            rw [performWrite_goesOn hactive hearly hopen]
            exact (congrArg (fun out : _ × LoggedDatabase => out.2.disk.wal)
              (Prog.bind_ok hstatement)).trans hlog
          have hsame := congrArg Disk.wal hdisk
          rw [hright, hrecovered, List.append_assoc] at hsame
          have hnone := List.self_eq_append_right.mp hsame
          exact hne (List.append_eq_nil_iff.mp hnone).2
      · exfalso
        obtain ⟨write, hearly⟩ := exists_goesOn hover
        obtain ⟨t, hrun, ht, htmanager, htactive⟩ := walManager_takeId h hdir
        obtain ⟨b, u, rs, hstatement, hlog, hne, hrs⟩ :=
          @logStatement_begins s.nextTransactionId t htactive write.shape (write.body t.disk.fs)
        have hleft : (performWrite early s).2.disk.wal = (recoveredFirst s).disk.wal ++ rs := by
          rw [performWrite_goesOn h.outside hearly hrun, Prog.bind_ok hstatement, ← ht, ← hlog]
          rfl
        have hsame := congrArg Disk.wal hdisk
        rw [hleft, hwal', List.append_cancel_left_eq] at hsame
        obtain ⟨r, hr⟩ := List.exists_mem_of_ne_nil rs hne
        have hid := hrs r hr
        have hid' := hrs' r (hsame ▸ hr)
        have hcounter := nextTransactionId_recoveredFirst h hdir hlsn hwal
        rw [← hid', hid, h.counter] at hcounter
        exact absurd hcounter (by decide)
  · rintro (hwal | hdir | ⟨hidle, hover⟩)
    · exact performWrite_emptyLog h hwal
    · unfold SameAsRecovered
      rw [recoveredFirst_noDirectory hdir]
      exact ⟨rfl, rfl⟩
    · exact performWrite_idle hidle hover

end Operations

end ScratchDb.FirstUse
