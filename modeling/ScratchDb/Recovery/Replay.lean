import ScratchDb.Recovery.View
import ScratchDb.Storage.WalManager

/-!
# What recovery and rollback perform

The effects that redo and undo of one record perform, and the loops of
`recover` and `rollback_transaction` as the lists of these effects. A loop
returns true exactly when the patches of its records are playable.
-/

namespace ScratchDb

/-! ## Lists of effects -/

theorem performAll_append (es es' : List Effect) :
    performAll (es ++ es') =
      (do if !(← performAll es) then pure false else performAll es') := by
  induction es with
  | nil => rfl
  | cons e es ih =>
      funext w
      simp only [List.cons_append, performAll, Prog.bind_apply]
      rcases perform e w with ⟨_ | b, t⟩
      · rfl
      · cases b
        · rfl
        · simpa [Prog.bind_apply] using congrFun ih t

theorem performAll_singleton (e : Effect) : performAll [e] = perform e := by
  funext w
  simp only [performAll, Prog.bind_apply]
  rcases perform e w with ⟨_ | b, t⟩
  · rfl
  · cases b <;> rfl

theorem perform_append (r : WalRecord) (w : World) :
    perform (.append r) w = (.ok true, w.advance [.append r] w.manager.lastLsn) :=
  perform_ok rfl

namespace World

/-- `durable_lsn_ := last_lsn_`. -/
def flushed (w : World) : World :=
  { w with manager := { w.manager with durableLsn := w.manager.lastLsn } }

@[simp] theorem flushed_disk (w : World) : w.flushed.disk = w.disk := rfl

@[simp] theorem flushed_trace (w : World) : w.flushed.trace = w.trace := rfl

@[simp] theorem advance_fs (w : World) (es : List Effect) (l : Nat) :
    (w.advance es l).disk.fs = Effect.applyFsAll w.disk.fs es := rfl

@[simp] theorem advance_wal (w : World) (es : List Effect) (l : Nat) :
    (w.advance es l).disk.wal = w.disk.wal ++ appended es := rfl

@[simp] theorem advance_lastLsn (w : World) (es : List Effect) (l : Nat) :
    (w.advance es l).manager.lastLsn = l := rfl

end World

namespace WalRecord

/-! ## The effects of one record -/

/-- What `append_record` was given where recovery relies on it: a page update
names a page and carries two images of one page, the other changes name a
directory, and schema texts are not empty. -/
def WellFormed (r : WalRecord) : Prop :=
  match r.type with
  | .pageUpdate => r.pageId ≠ noPageId ∧ r.tableFile ≠ [] ∧ r.beforeImage.length = pageSize ∧
      r.afterImage.length = pageSize
  | .createTable => r.tableFile ≠ []
  | .dropTable => r.tableFile ≠ []
  | .schemaUpdate => r.tableFile ≠ [] ∧ r.beforeImage ≠ [] ∧ r.afterImage ≠ []
  | _ => True

instance (r : WalRecord) : Decidable r.WellFormed := by
  unfold WellFormed
  cases r.type <;> infer_instance

/-- The block `write_page_image` writes. -/
def stamped (r : WalRecord) (image : Bytes) (pageLsn : Nat) : Page :=
  if (pathOf r.tableFile).filename = tableFileName then (Page.ofImage image).setPageLsn pageLsn
  else Page.ofImage image

def pageEffects (r : WalRecord) (image : Bytes) (pageLsn : Nat) : List Effect :=
  [.openCreate (pathOf r.tableFile),
    .writePage (pathOf r.tableFile) r.pageId (r.stamped image pageLsn)]

def createEffects (r : WalRecord) : List Effect :=
  [.createDirectories (pathOf r.tableFile),
    .openCreate (pathOf (joinPath r.tableFile tableFileName)),
    .truncateText (pathOf (joinPath r.tableFile schemaFileName)),
    .writeText (pathOf (joinPath r.tableFile schemaFileName)) r.afterImage]

def dropEffects (r : WalRecord) : List Effect := [.removeAll (pathOf r.tableFile)]

def schemaEffects (r : WalRecord) (schemaImage : Bytes) : List Effect :=
  [.createDirectories (pathOf r.tableFile),
    .truncateText (pathOf (joinPath r.tableFile schemaFileName)),
    .writeText (pathOf (joinPath r.tableFile schemaFileName)) schemaImage]

def redoEffects (r : WalRecord) : List Effect :=
  match r.type with
  | .pageUpdate => r.pageEffects r.afterImage r.lsn
  | .createTable => r.createEffects
  | .dropTable => r.dropEffects
  | .schemaUpdate => r.schemaEffects r.afterImage
  | _ => []

/-- The types the undo loops have a branch for. -/
def compensated (r : WalRecord) : Bool :=
  match r.type with
  | .pageUpdate => true
  | .createTable => true
  | .schemaUpdate => true
  | _ => false

/-- The compensation record, logged under the number `lsn`. -/
def compensation (r : WalRecord) (lsn : Nat) : WalRecord :=
  match r.type with
  | .pageUpdate => ⟨.pageUpdate, lsn, r.transactionId, r.pageId, r.tableFile,
      (Page.ofImage r.afterImage).image, (Page.ofImage r.beforeImage).image, []⟩
  | .createTable => ⟨.dropTable, lsn, r.transactionId, noPageId, r.tableFile, [], [], []⟩
  | _ => ⟨.schemaUpdate, lsn, r.transactionId, noPageId, r.tableFile, r.afterImage,
      r.beforeImage, []⟩

/-- What undo does to the files once the compensation record is logged. -/
def undoEffects (r : WalRecord) (lsn : Nat) : List Effect :=
  match r.type with
  | .pageUpdate => r.pageEffects r.beforeImage lsn
  | .createTable => r.dropEffects
  | .schemaUpdate => r.schemaEffects r.beforeImage
  | _ => []

def undoSteps (r : WalRecord) (lastLsn : Nat) : List Effect :=
  if r.compensated then .append (r.compensation (lastLsn + 1)) :: r.undoEffects (lastLsn + 1)
  else []

/-- `last_lsn_` after undoing the record. -/
def lsnAfterUndo (r : WalRecord) (lastLsn : Nat) : Nat :=
  if r.compensated then lastLsn + 1 else lastLsn

end WalRecord

namespace WalManager

open WalRecord

theorem appendRecord_eq (type : WalRecordType) (t : Nat) (file : Bytes) (k : Nat)
    (before after : Bytes) (ids : List Nat) (w : World) :
    appendRecord type t file k before after ids w = (.ok (w.manager.lastLsn + 1),
      w.advance [.append ⟨type, w.manager.lastLsn + 1, t, k, file, before, after, ids⟩]
        (w.manager.lastLsn + 1)) := by
  simp only [appendRecord, Prog.bind_apply, Prog.get_apply, perform_append]
  rfl

theorem writePageImage_eq {r : WalRecord} {image : Bytes} (lsn : Nat) (hpage : r.pageId ≠ noPageId)
    (hfile : r.tableFile ≠ []) (hsize : image.length = pageSize) :
    writePageImage r image lsn = performAll (r.pageEffects image lsn) := by
  rw [writePageImage, if_neg (by simp [hpage, hfile, hsize])]
  rw [pageEffects, performAll, performAll_singleton]
  rfl

theorem redoCreateTable_eq {r : WalRecord} (hfile : r.tableFile ≠ []) :
    redoCreateTable r = performAll r.createEffects := by
  rw [redoCreateTable, if_neg hfile]
  rw [createEffects, performAll, performAll, performAll, performAll_singleton]

theorem redoDropTable_eq {r : WalRecord} (hfile : r.tableFile ≠ []) :
    redoDropTable r = performAll r.dropEffects := by
  rw [redoDropTable, if_neg hfile, dropEffects, performAll_singleton]

theorem writeSchemaText_eq {r : WalRecord} {image : Bytes} (hfile : r.tableFile ≠ [])
    (himage : image ≠ []) :
    writeSchemaText r.tableFile image = performAll (r.schemaEffects image) := by
  rw [writeSchemaText, if_neg (by simp [hfile, himage])]
  rw [schemaEffects, performAll, performAll, performAll_singleton]

theorem ne_nil_of_length {image : Bytes} (h : image.length = pageSize) : image ≠ [] := by
  rintro rfl
  exact absurd h (by decide)

/-- Redo of a well-formed record performs its effects. -/
theorem redoRecord_eq {r : WalRecord} (h : r.WellFormed) :
    redoRecord r = performAll r.redoEffects := by
  unfold redoRecord redoEffects
  unfold WellFormed at h
  rcases htype : r.type with _ | _ | _ | _ | _ | _ | _ | _ | c <;> simp only [htype] at h
  case pageUpdate =>
    simp [writePageImage_eq r.lsn h.1 h.2.1 h.2.2.2, ne_nil_of_length h.2.2.2]
  case createTable => simp [redoCreateTable_eq h]
  case dropTable => simp [redoDropTable_eq h]
  case schemaUpdate => simp [writeSchemaText_eq h.1 h.2.2]
  all_goals rfl

/-- Undo of a well-formed record logs its compensation and performs its effects. -/
theorem undoRecord_eq {r : WalRecord} (h : r.WellFormed) (w : World) :
    undoRecord r w = if r.compensated then
      performAll (r.undoEffects (w.manager.lastLsn + 1))
        (w.advance [.append (r.compensation (w.manager.lastLsn + 1))] (w.manager.lastLsn + 1))
      else (.ok true, w) := by
  unfold undoRecord undoEffects compensated compensation
  unfold WellFormed at h
  rcases htype : r.type with _ | _ | _ | _ | _ | _ | _ | _ | c <;> simp only [htype] at h
  case pageUpdate =>
    simp [ne_nil_of_length h.2.2.1, logPageUpdate, Prog.bind_apply, appendRecord_eq,
      writePageImage_eq _ h.1 h.2.1 h.2.2.1]
  case createTable =>
    simp [logDropTable, Prog.bind_apply, appendRecord_eq, redoDropTable_eq h]
  case schemaUpdate =>
    simp [logSchemaUpdate, Prog.bind_apply, appendRecord_eq, writeSchemaText_eq h.1 h.2.1]
  all_goals rfl

theorem undoRecord_ok {r : WalRecord} (h : r.WellFormed) {w : World}
    (hp : Effect.performable w.disk.fs (r.undoSteps w.manager.lastLsn) = true) :
    undoRecord r w = (.ok true,
      w.advance (r.undoSteps w.manager.lastLsn) (r.lsnAfterUndo w.manager.lastLsn)) := by
  rw [undoRecord_eq h]
  unfold undoSteps at hp ⊢
  unfold lsnAfterUndo
  rcases hc : r.compensated with _ | _
  · simp [World.advance_nil]
  · rw [if_pos hc] at hp
    have hp' : Effect.performable w.disk.fs (r.undoEffects (w.manager.lastLsn + 1)) = true := hp
    simp only [if_true]
    rw [performAll_ok (by simpa [Effect.applyFsAll, Effect.applyFs] using hp'),
      World.advance_lastLsn, World.advance_advance]
    rfl

theorem undoRecord_refused {r : WalRecord} (h : r.WellFormed) {w : World}
    (hp : Effect.performable w.disk.fs (r.undoSteps w.manager.lastLsn) = false) :
    (undoRecord r w).1 = .ok false := by
  rw [undoRecord_eq h]
  unfold undoSteps at hp
  rcases hc : r.compensated with _ | _
  · simp [hc, Effect.performable] at hp
  · rw [if_pos hc] at hp
    have hp' : Effect.performable w.disk.fs (r.undoEffects (w.manager.lastLsn + 1)) = false := by
      simpa [Effect.performable, Effect.possible, Effect.applyFs] using hp
    exact performAll_refused (by simpa [Effect.applyFsAll, Effect.applyFs] using hp')

/-! ## The loops -/

/-- The effects of the redo loop. -/
def redoAll (records : List WalRecord) : List Effect := records.flatMap redoEffects

theorem redoLoop_filter (skips : WalRecord → Bool) (rs : List WalRecord) :
    redoLoop skips rs = redoLoop (fun _ => false) (rs.filter (!skips ·)) := by
  induction rs with
  | nil => rfl
  | cons r rs ih =>
      rcases hr : skips r with _ | _
      · rw [List.filter_cons_of_pos (by simp [hr]), redoLoop, redoLoop, ih]
        simp [hr]
      · rw [List.filter_cons_of_neg (by simp [hr]), redoLoop, if_pos hr, ih]

theorem redoLoop_eq {rs : List WalRecord} (h : ∀ r ∈ rs, r.WellFormed) :
    redoLoop (fun _ => false) rs = performAll (redoAll rs) := by
  induction rs with
  | nil => rfl
  | cons r rs ih =>
      rw [redoLoop, redoAll, List.flatMap_cons, performAll_append,
        redoRecord_eq (h r List.mem_cons_self), ih fun q hq => h q (List.mem_cons_of_mem _ hq)]
      rfl

/-- The effects of an undo loop over `rs`, from the head on. -/
def undoAll : Nat → List WalRecord → List Effect
  | _, [] => []
  | lastLsn, r :: rs => r.undoSteps lastLsn ++ undoAll (r.lsnAfterUndo lastLsn) rs

def lsnAfterUndoAll : Nat → List WalRecord → Nat
  | lastLsn, [] => lastLsn
  | lastLsn, r :: rs => lsnAfterUndoAll (r.lsnAfterUndo lastLsn) rs

theorem undoLoop_filter (chosen : Nat → Bool) (rs : List WalRecord) :
    undoLoop chosen rs = undoLoop (fun _ => true) (rs.filter (chosen ·.transactionId)) := by
  induction rs with
  | nil => rfl
  | cons r rs ih =>
      rcases hr : chosen r.transactionId with _ | _
      · rw [List.filter_cons_of_neg (by simp [hr]), undoLoop, ih]
        simp [hr]
      · rw [List.filter_cons_of_pos (by simp [hr]), undoLoop, undoLoop, ih]
        simp [hr]

theorem undoLoop_ok {rs : List WalRecord} (h : ∀ r ∈ rs, r.WellFormed) {w : World}
    (hp : Effect.performable w.disk.fs (undoAll w.manager.lastLsn rs) = true) :
    undoLoop (fun _ => true) rs w = (.ok true,
      w.advance (undoAll w.manager.lastLsn rs) (lsnAfterUndoAll w.manager.lastLsn rs)) := by
  induction rs generalizing w with
  | nil => simp [undoLoop, undoAll, lsnAfterUndoAll, World.advance_nil]
  | cons r rs ih =>
      rw [undoAll, Effect.performable_append, Bool.and_eq_true] at hp
      rw [undoLoop]
      simp only [Bool.not_true, Bool.false_eq_true, if_false]
      rw [Prog.bind_ok (undoRecord_ok (h r List.mem_cons_self) hp.1)]
      simp only [Bool.not_true, Bool.false_eq_true, if_false]
      rw [ih (fun q hq => h q (List.mem_cons_of_mem _ hq)) hp.2, World.advance_lastLsn,
        World.advance_advance]
      rfl

theorem undoLoop_refused {rs : List WalRecord} (h : ∀ r ∈ rs, r.WellFormed) {w : World}
    (hp : Effect.performable w.disk.fs (undoAll w.manager.lastLsn rs) = false) :
    (undoLoop (fun _ => true) rs w).1 = .ok false := by
  induction rs generalizing w with
  | nil => simp [undoAll, Effect.performable] at hp
  | cons r rs ih =>
      rw [undoAll, Effect.performable_append] at hp
      rw [undoLoop]
      simp only [Bool.not_true, Bool.false_eq_true, if_false]
      rcases hr : Effect.performable w.disk.fs (r.undoSteps w.manager.lastLsn) with _ | _
      · have hrefused := undoRecord_refused (h r List.mem_cons_self) hr
        rw [Prog.bind_apply]
        rcases hu : undoRecord r w with ⟨_ | b, t⟩
        · simp [hu] at hrefused
        · rw [hu] at hrefused
          cases hrefused
          rfl
      · rw [Prog.bind_ok (undoRecord_ok (h r List.mem_cons_self) hr)]
        simp only [Bool.not_true, Bool.false_eq_true, if_false]
        exact ih (fun q hq => h q (List.mem_cons_of_mem _ hq)) (by simpa [hr] using hp)

def abortRecord (id lsn : Nat) : WalRecord := ⟨.abortTransaction, lsn, id, noPageId, [], [], [], []⟩

/-- The abort records of the losers, numbered from `lastLsn + 1` on. -/
def aborts : Nat → List Nat → List Effect
  | _, [] => []
  | lastLsn, id :: ids => .append (abortRecord id (lastLsn + 1)) :: aborts (lastLsn + 1) ids

theorem abortLoop_ok (ids : List Nat) (w : World) :
    abortLoop ids w = (.ok true,
      w.advance (aborts w.manager.lastLsn ids) (w.manager.lastLsn + ids.length)) := by
  induction ids generalizing w with
  | nil => simp [abortLoop, aborts, World.advance_nil]
  | cons id ids ih =>
      rw [abortLoop, abortTransaction, Prog.bind_ok (appendRecord_eq ..)]
      simp only [Nat.succ_ne_zero, if_false]
      rw [ih, World.advance_lastLsn, World.advance_advance]
      simp [aborts, abortRecord, Nat.add_comm, Nat.add_left_comm]

theorem flush_eq (w : World) : flush w = (.ok true, w.flushed) := rfl

theorem readAllRecords_eq (w : World) : readAllRecords w = (.ok w.disk.wal, w) := rfl

theorem adoptLsns_eq (records : List WalRecord) (w : World) : adoptLsns records w =
    (.ok (), w.advance [] (WalFile.maxLsn w.manager.lastLsn records)) := by
  simp [adoptLsns, World.advance, Effect.applyFsAll, appended]

/-! ## Recovery and rollback as lists of effects -/

/-- The records the redo loop does not pass over. -/
def redone (records : List WalRecord) : List WalRecord :=
  records.filter (!redoSkips records ·)

/-- The records the undo loop takes back, in its order. -/
def undone (records : List WalRecord) : List WalRecord :=
  records.reverse.filter fun r => (losersOf records).contains r.transactionId

/-- Redo and undo, with `last_lsn_` as it is before the undo loop. -/
def replayEffects (lastLsn : Nat) (records : List WalRecord) : List Effect :=
  redoAll (redone records) ++ undoAll lastLsn (undone records)

/-- All that a `recover` performs that returns true. -/
def recoverEffects (lastLsn : Nat) (records : List WalRecord) : List Effect :=
  replayEffects lastLsn records ++
    aborts (lsnAfterUndoAll lastLsn (undone records)) (losersOf records)

def lsnAfterRecover (lastLsn : Nat) (records : List WalRecord) : Nat :=
  lsnAfterUndoAll lastLsn (undone records) + (losersOf records).length

theorem mem_redone {records : List WalRecord} {r : WalRecord} (h : r ∈ redone records) :
    r ∈ records := List.mem_of_mem_filter h

theorem mem_undone {records : List WalRecord} {r : WalRecord} (h : r ∈ undone records) :
    r ∈ records := List.mem_reverse.mp (List.mem_of_mem_filter h)

theorem recover_ok {w : World} (hform : ∀ r ∈ w.disk.wal, r.WellFormed)
    (hp : Effect.performable w.disk.fs
      (replayEffects (WalFile.maxLsn w.manager.lastLsn w.disk.wal) w.disk.wal) = true) :
    recover w = (.ok true, (w.advance
      (recoverEffects (WalFile.maxLsn w.manager.lastLsn w.disk.wal) w.disk.wal)
      (lsnAfterRecover (WalFile.maxLsn w.manager.lastLsn w.disk.wal) w.disk.wal)).flushed) := by
  set lsn := WalFile.maxLsn w.manager.lastLsn w.disk.wal with hlsn
  rw [replayEffects, Effect.performable_append, Bool.and_eq_true] at hp
  have hredo : redoLoop (fun _ => false) (redone w.disk.wal) = _ :=
    redoLoop_eq fun r hr => hform r (mem_redone hr)
  have hundo : undoLoop (fun _ => true) (undone w.disk.wal)
      ((w.advance [] lsn).advance (redoAll (redone w.disk.wal)) lsn) = _ :=
    undoLoop_ok (fun r hr => hform r (mem_undone hr)) (by simpa [applyFsAll_append, Effect.applyFsAll] using hp.2)
  rw [recover, Prog.bind_ok (readAllRecords_eq w), Prog.bind_ok (adoptLsns_eq _ w), ← hlsn]
  rw [redoLoop_filter, ← redone, hredo,
    Prog.bind_ok (performAll_ok (w := w.advance [] lsn) (by simpa [Effect.applyFsAll] using hp.1))]
  simp only [Bool.not_true, Bool.false_eq_true, if_false, World.advance_lastLsn]
  rw [undoLoop_filter, ← undone, Prog.bind_ok hundo]
  simp only [Bool.not_true, Bool.false_eq_true, if_false, World.advance_lastLsn]
  rw [Prog.bind_ok (abortLoop_ok _ _)]
  simp [flush_eq, World.advance_advance, recoverEffects, replayEffects, lsnAfterRecover]

theorem recover_refused {w : World} (hform : ∀ r ∈ w.disk.wal, r.WellFormed)
    (hp : Effect.performable w.disk.fs
      (replayEffects (WalFile.maxLsn w.manager.lastLsn w.disk.wal) w.disk.wal) = false) :
    (recover w).1 = .ok false := by
  set lsn := WalFile.maxLsn w.manager.lastLsn w.disk.wal with hlsn
  have hredo : redoLoop (fun _ => false) (redone w.disk.wal) = _ :=
    redoLoop_eq fun r hr => hform r (mem_redone hr)
  rw [recover, Prog.bind_ok (readAllRecords_eq w), Prog.bind_ok (adoptLsns_eq _ w), ← hlsn]
  rw [redoLoop_filter, ← redone, hredo]
  rcases hp1 : Effect.performable w.disk.fs (redoAll (redone w.disk.wal)) with _ | _
  · -- the redo loop stops
    have hrefused := performAll_refused (w := w.advance [] lsn) (by simpa [Effect.applyFsAll] using hp1)
    rw [Prog.bind_apply]
    rcases hrun : performAll (redoAll (redone w.disk.wal)) (w.advance [] lsn) with ⟨_ | b, t⟩
    · simp [hrun] at hrefused
    · rw [hrun] at hrefused
      cases hrefused
      rfl
  · -- the undo loop stops
    rw [Prog.bind_ok (performAll_ok (w := w.advance [] lsn) (by simpa [Effect.applyFsAll] using hp1))]
    simp only [Bool.not_true, Bool.false_eq_true, if_false, World.advance_lastLsn]
    rw [replayEffects, Effect.performable_append, hp1, Bool.true_and] at hp
    have hrefused := undoLoop_refused (w := (w.advance [] lsn).advance
      (redoAll (redone w.disk.wal)) lsn) (fun r hr => hform r (mem_undone hr))
      (by simpa [applyFsAll_append, Effect.applyFsAll] using hp)
    rw [undoLoop_filter, ← undone, Prog.bind_apply]
    rcases hrun : undoLoop (fun _ => true) (undone w.disk.wal)
      ((w.advance [] lsn).advance (redoAll (redone w.disk.wal)) lsn) with ⟨_ | b, t⟩
    · simp [hrun] at hrefused
    · rw [hrun] at hrefused
      cases hrefused
      rfl

/-- The records `rollback_transaction` takes back, in its order. -/
def rolledBack (t : Nat) (records : List WalRecord) : List WalRecord :=
  records.reverse.filter (·.transactionId == t)

def rollbackEffects (lastLsn t : Nat) (records : List WalRecord) : List Effect :=
  undoAll lastLsn (rolledBack t records) ++
    [.append (abortRecord t (lsnAfterUndoAll lastLsn (rolledBack t records) + 1))]

theorem mem_rolledBack {t : Nat} {records : List WalRecord} {r : WalRecord} :
    r ∈ rolledBack t records ↔ r ∈ records ∧ r.transactionId = t := by
  simp [rolledBack]

theorem rollbackTransaction_ok {w : World} {t : Nat} (ht : t ≠ 0)
    (hform : ∀ r ∈ w.disk.wal, r.WellFormed)
    (hp : Effect.performable w.disk.fs
      (undoAll w.manager.lastLsn (rolledBack t w.disk.wal)) = true) :
    rollbackTransaction t w = (.ok true, (w.advance
      (rollbackEffects w.manager.lastLsn t w.disk.wal)
      (lsnAfterUndoAll w.manager.lastLsn (rolledBack t w.disk.wal) + 1)).flushed) := by
  have hundo : undoLoop (fun _ => true) (rolledBack t w.disk.wal) w = _ :=
    undoLoop_ok (fun r hr => hform r (mem_rolledBack.mp hr).1) hp
  rw [rollbackTransaction, if_neg ht, Prog.bind_ok (readAllRecords_eq w),
    undoLoop_filter, ← rolledBack, Prog.bind_ok hundo]
  simp only [Bool.not_true, Bool.false_eq_true, if_false]
  rw [abortTransaction, Prog.bind_ok (appendRecord_eq ..)]
  simp [flush_eq, World.advance_advance, rollbackEffects, abortRecord]

theorem rollbackTransaction_refused {w : World} {t : Nat}
    (hform : ∀ r ∈ w.disk.wal, r.WellFormed)
    (hp : Effect.performable w.disk.fs
      (undoAll w.manager.lastLsn (rolledBack t w.disk.wal)) = false) :
    (rollbackTransaction t w).1 = .ok false := by
  rw [rollbackTransaction]
  split
  · rfl
  · rw [Prog.bind_ok (readAllRecords_eq w), undoLoop_filter, ← rolledBack, Prog.bind_apply]
    have hrefused := undoLoop_refused (fun r hr => hform r (mem_rolledBack.mp hr).1) hp
    rcases hrun : undoLoop (fun _ => true) (rolledBack t w.disk.wal) w with ⟨_ | b, u⟩
    · simp [hrun] at hrefused
    · rw [hrun] at hrefused
      cases hrefused
      rfl

end WalManager

end ScratchDb
