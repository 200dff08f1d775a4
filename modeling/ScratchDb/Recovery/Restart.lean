import ScratchDb.Recovery.Directories

/-!
# Recovery interrupted and started again

The disk that `recover` leaves behind when it stops after some of its effects:
the log has got the compensation records of the last few changes and, once
all are there, some abort records. The second recovery redoes these records,
undoes them and then undoes the changes again; location by location the last
assignment is the one of an uninterrupted run.
-/

namespace ScratchDb

open WalManager

/-! ## Prefixes of a run -/

theorem Disk.after_map (d : Disk) (es : List Effect) (l : Nat) :
    d.after (es.map fun e => ⟨e, l⟩) = ⟨Effect.applyFsAll d.fs es, d.wal ++ appended es⟩ := by
  induction es generalizing d with
  | nil => simp [Disk.after, Effect.applyFsAll, appended]
  | cons e es ih =>
      have h := ih (e.apply d)
      simp only [Disk.after, List.map_cons, List.foldl_cons] at h ⊢
      rw [h]
      cases e <;> simp [Effect.apply, Effect.applyFsAll, appended, Effect.applyFs]

theorem appended_take (es : List Effect) (n : Nat) :
    ∃ m, appended (es.take n) = (appended es).take m := by
  induction es generalizing n with
  | nil => exact ⟨0, by simp [appended]⟩
  | cons e es ih =>
      cases n with
      | zero => exact ⟨0, by simp [appended]⟩
      | succ n =>
          obtain ⟨m, hm⟩ := ih n
          cases e with
          | append r => exact ⟨m + 1, by simp [appended, hm]⟩
          | _ => exact ⟨m, hm⟩

theorem compensations_take (lsn : Nat) (rs : List WalRecord) (m : Nat) :
    ∃ j, (compensations lsn rs).take m = compensations lsn (rs.take j) := by
  induction rs generalizing lsn m with
  | nil => exact ⟨0, by simp [compensations, undoAll, appended]⟩
  | cons r rs ih =>
      rcases hc : r.compensated with _ | _
      · obtain ⟨j, hj⟩ := ih (r.lsnAfterUndo lsn) m
        exact ⟨j + 1, by simpa [compensations_cons, hc] using hj⟩
      · cases m with
        | zero => exact ⟨0, by simp [compensations, undoAll, appended]⟩
        | succ m =>
            obtain ⟨j, hj⟩ := ih (r.lsnAfterUndo lsn) m
            exact ⟨j + 1, by simpa [compensations_cons, hc] using hj⟩

theorem appended_redoEffects (r : WalRecord) : appended r.redoEffects = [] := by
  unfold WalRecord.redoEffects
  rcases r.type with _ | _ | _ | _ | _ | _ | _ | _ | c <;> rfl

theorem appended_redoAll (rs : List WalRecord) : appended (redoAll rs) = [] := by
  induction rs with
  | nil => rfl
  | cons r rs ih =>
      rw [redoAll, List.flatMap_cons, appended_append, appended_redoEffects]
      exact ih

/-- The abort records themselves. -/
def abortRecords : Nat → List Nat → List WalRecord
  | _, [] => []
  | lastLsn, id :: ids => abortRecord id (lastLsn + 1) :: abortRecords (lastLsn + 1) ids

theorem appended_aborts (lsn : Nat) (ids : List Nat) :
    appended (aborts lsn ids) = abortRecords lsn ids := by
  induction ids generalizing lsn with
  | nil => rfl
  | cons id ids ih => simp [aborts, abortRecords, appended, ih]

theorem abortRecords_take (lsn : Nat) (ids : List Nat) (m : Nat) :
    (abortRecords lsn ids).take m = abortRecords lsn (ids.take m) := by
  induction ids generalizing lsn m with
  | nil => simp [abortRecords]
  | cons id ids ih =>
      cases m with
      | zero => rfl
      | succ m => simp [abortRecords, ih]

theorem mem_abortRecords {lsn : Nat} {ids : List Nat} {q : WalRecord}
    (h : q ∈ abortRecords lsn ids) : ∃ id ∈ ids, ∃ l, q = abortRecord id l := by
  induction ids generalizing lsn with
  | nil => cases h
  | cons id ids ih =>
      rcases List.mem_cons.mp h with rfl | h
      · exact ⟨id, List.mem_cons_self, lsn + 1, rfl⟩
      · obtain ⟨id', hid', rest⟩ := ih h
        exact ⟨id', List.mem_cons_of_mem _ hid', rest⟩

theorem hasRecord_abortRecords {lsn : Nat} {ids : List Nat} {type : WalRecordType} {t : Nat} :
    HasRecord (abortRecords lsn ids) type t ↔ type = .abortTransaction ∧ t ∈ ids := by
  induction ids generalizing lsn with
  | nil => simp [abortRecords, HasRecord]
  | cons id ids ih =>
      have hcons : HasRecord (abortRecords lsn (id :: ids)) type t ↔
          ((abortRecord id (lsn + 1)).type = type ∧
            (abortRecord id (lsn + 1)).transactionId = t) ∨
            HasRecord (abortRecords (lsn + 1) ids) type t := by
        simp [abortRecords, HasRecord]
      rw [hcons, ih, List.mem_cons]
      simp only [abortRecord]
      constructor
      · rintro (⟨rfl, rfl⟩ | ⟨rfl, h⟩)
        · exact ⟨rfl, Or.inl rfl⟩
        · exact ⟨rfl, Or.inr h⟩
      · rintro ⟨rfl, rfl | h⟩
        · exact Or.inl ⟨rfl, rfl⟩
        · exact Or.inr ⟨rfl, h⟩

/-- The log after an interrupted recovery: `undone` are the records taken back
so far, `finished` the losers that already got their abort record. -/
structure Interrupted (log log' undoneSoFar : List WalRecord) (finished : List Nat) : Prop where
  shape : ∃ lsn lsn', log' = log ++ compensations lsn undoneSoFar ++ abortRecords lsn' finished
  fromLast : ∃ j, undoneSoFar = (undone log).take j
  losers : ∀ t ∈ finished, Active log t
  complete : finished ≠ [] → undoneSoFar = undone log

theorem interrupted_take (log : List WalRecord) (lsn n : Nat) :
    ∃ soFar finished, Interrupted log (log ++ appended ((recoverEffects lsn log).take n))
      soFar finished := by
  obtain ⟨m, hm⟩ := appended_take (recoverEffects lsn log) n
  have happended : appended (recoverEffects lsn log) = compensations lsn (undone log) ++
      abortRecords (lsnAfterUndoAll lsn (undone log)) (losersOf log) := by
    rw [recoverEffects, replayEffects, appended_append, appended_append, appended_redoAll,
      appended_aborts, compensations, List.nil_append]
  rw [happended, List.take_append] at hm
  obtain ⟨j, hj⟩ := compensations_take lsn (undone log) m
  rw [abortRecords_take] at hm
  by_cases hlen : m ≤ (compensations lsn (undone log)).length
  · refine ⟨(undone log).take j, [], ⟨lsn, 0, ?_⟩, ⟨j, rfl⟩, by simp, by simp⟩
    rw [hm, hj, Nat.sub_eq_zero_of_le hlen]
    simp [abortRecords]
  · have hall : (compensations lsn (undone log)).take m = compensations lsn (undone log) :=
      List.take_of_length_le (by omega)
    rw [hall] at hm
    refine ⟨undone log, (losersOf log).take (m - (compensations lsn (undone log)).length),
      ⟨lsn, lsnAfterUndoAll lsn (undone log), ?_⟩, ⟨(undone log).length, (List.take_of_length_le le_rfl).symm⟩,
      fun t ht => mem_losersOf.mp (List.mem_of_mem_take ht), fun _ => rfl⟩
    rw [hm, List.append_assoc]

section Interrupted

variable {log log' soFar : List WalRecord} {finished : List Nat}

theorem Interrupted.mem_soFar (h : Interrupted log log' soFar finished) {r : WalRecord}
    (hr : r ∈ soFar) : r ∈ log ∧ Active log r.transactionId := by
  obtain ⟨j, rfl⟩ := h.fromLast
  have hr := List.mem_of_mem_take hr
  rw [undone_eq, List.mem_reverse, List.mem_filter] at hr
  exact ⟨hr.1, by simpa using hr.2⟩

theorem compensations_changes {lsn : Nat} {rs : List WalRecord} :
    ∀ r ∈ compensations lsn rs, r.type ≠ .beginTransaction ∧ r.type ≠ .commitTransaction ∧
      r.type ≠ .abortTransaction := by
  intro q hq
  obtain ⟨r, -, l, -, rfl⟩ := mem_compensations hq
  rcases compensation_type r l with h | h | h <;> simp [h]

/-- Recovery finishes its losers one by one and changes no other status. -/
theorem Interrupted.active_iff (h : Interrupted log log' soFar finished) {t : Nat} :
    Active log' t ↔ Active log t ∧ t ∉ finished := by
  obtain ⟨lsn, lsn', rfl⟩ := h.shape
  have hchanges : Active (log ++ compensations lsn soFar) t ↔ Active log t :=
    active_append_of_changes compensations_changes
  rw [← hchanges]
  generalize log ++ compensations lsn soFar = log''
  simp only [Active, Committed, Aborted, hasRecord_append, hasRecord_abortRecords, reduceCtorEq, false_and, or_false, true_and, not_or]
  tauto

theorem Interrupted.allBegun (h : Interrupted log log' soFar finished) (hlog : AllBegun log) :
    AllBegun log' := by
  have hmem := fun r (hr : r ∈ soFar) => (h.mem_soFar hr).2.1
  obtain ⟨lsn, lsn', rfl⟩ := h.shape
  rw [List.append_assoc]
  refine hlog.append fun r hr => HasRecord.append_left ?_
  rcases List.mem_append.mp hr with hr | hr
  · obtain ⟨q, hq, l, -, rfl⟩ := mem_compensations hr
    rw [compensation_transactionId]
    exact hmem q hq
  · obtain ⟨id, hid, l, rfl⟩ := mem_abortRecords hr
    exact (h.losers id hid).1

theorem Interrupted.wellFormed (h : Interrupted log log' soFar finished)
    (hlog : ∀ r ∈ log, r.WellFormed) : ∀ r ∈ log', r.WellFormed := by
  have hmem := fun r (hr : r ∈ soFar) => hlog r (h.mem_soFar hr).1
  obtain ⟨lsn, lsn', rfl⟩ := h.shape
  intro r hr
  rcases List.mem_append.mp hr with hr | hr
  · rcases List.mem_append.mp hr with hr | hr
    · exact hlog r hr
    · obtain ⟨q, hq, l, hc, rfl⟩ := mem_compensations hr
      exact compensation_wellFormed (hmem q hq) hc l
  · obtain ⟨id, -, l, rfl⟩ := mem_abortRecords hr
    trivial

end Interrupted

/-! ## What is read off the compensation records -/

theorem map_compensations {α : Type} {f g : WalRecord → α} (rs : List WalRecord)
    (h : ∀ r ∈ rs, r.compensated = true → ∀ l, f (r.compensation l) = g r)
    (keep : Nat → Bool) (lsn : Nat) :
    ((compensations lsn rs).filter fun r => keep r.transactionId).map f =
      ((rs.filter WalRecord.compensated).filter fun r => keep r.transactionId).map g := by
  induction rs generalizing lsn with
  | nil => rfl
  | cons r rs ih =>
      have ih := ih (fun q hq => h q (List.mem_cons_of_mem _ hq)) (r.lsnAfterUndo lsn)
      rw [compensations_cons, List.filter_append, List.map_append, ih]
      rcases hc : r.compensated with _ | _
      · simp [hc]
      · have hr := h r List.mem_cons_self hc (lsn + 1)
        rcases hk : keep r.transactionId with _ | _ <;> simp [hc, hk, hr]

section Compensation

variable {V : Type} (E : PageView V)

/-- Redoing a compensation is undoing the record. -/
theorem redoPatch_compensation {r : WalRecord} (hc : r.compensated = true) (l : Nat) :
    (r.compensation l).redoPatch E = r.undoPatch E := by
  unfold WalRecord.compensated at hc
  unfold WalRecord.redoPatch WalRecord.undoPatch WalRecord.compensation
  rcases htype : r.type with _ | _ | _ | _ | _ | _ | _ | _ | c <;> simp_all

/-- What undoing the compensation of a record assigns. -/
def reundoPatch (r : WalRecord) : Patch Loc (Val V) :=
  match r.type with
  | .pageUpdate => pagePatch (pathOf r.tableFile) r.pageId
      (E.look (pathOf r.tableFile) (Page.ofImage r.afterImage))
  | .schemaUpdate => schemaPatch (pathOf r.tableFile) r.afterImage
  | _ => Patch.skip

theorem undoPatch_compensation {r : WalRecord} (hc : r.compensated = true) (l : Nat) :
    (r.compensation l).undoPatch E = reundoPatch E r := by
  unfold WalRecord.compensated at hc
  unfold reundoPatch WalRecord.undoPatch WalRecord.compensation
  rcases htype : r.type with _ | _ | _ | _ | _ | _ | _ | _ | c <;> simp_all

theorem reundoPatch_eq_none {r : WalRecord} {k : Loc} (h : r.undoPatch E k = none) :
    reundoPatch E r k = none := by
  unfold WalRecord.undoPatch at h
  unfold reundoPatch
  rcases htype : r.type with _ | _ | _ | _ | _ | _ | _ | _ | c <;> rw [htype] at h <;>
    first | rfl | skip
  · cases k <;> simp_all [pagePatch]
  · cases k <;> simp_all [schemaPatch]

theorem redoMove_compensation {r : WalRecord} (hc : r.compensated = true) (l : Nat) (d : Path) :
    (r.compensation l).redoMove d = r.undoMove d := by
  unfold WalRecord.compensated at hc
  unfold WalRecord.redoMove WalRecord.undoMove WalRecord.compensation
  rcases htype : r.type with _ | _ | _ | _ | _ | _ | _ | _ | c <;> simp_all

theorem undoMove_of_not_compensated {r : WalRecord} (hc : r.compensated = false) (d : Path) :
    r.undoMove d = .idle := by
  unfold WalRecord.compensated at hc
  unfold WalRecord.undoMove
  rcases htype : r.type with _ | _ | _ | _ | _ | _ | _ | _ | c <;> simp_all

/-- What undoing the compensation of a record does to directory `d`. -/
def reundoMove (d : Path) (r : WalRecord) : Move :=
  match r.type with
  | .createTable => .idle
  | _ => r.undoMove d

theorem undoMove_compensation {r : WalRecord} (hc : r.compensated = true) (l : Nat) (d : Path) :
    (r.compensation l).undoMove d = reundoMove d r := by
  unfold WalRecord.compensated at hc
  unfold reundoMove WalRecord.undoMove WalRecord.compensation
  rcases htype : r.type with _ | _ | _ | _ | _ | _ | _ | _ | c <;> simp_all

theorem reundoMove_of_not_compensated {r : WalRecord} (hc : r.compensated = false) (d : Path) :
    reundoMove d r = .idle := by
  unfold reundoMove
  split
  · rfl
  · exact undoMove_of_not_compensated hc d

end Compensation

/-! ## The logs a database writes -/

/-- The logs a database writes: transactions begin before they log, table
directories lie side by side, an unfinished transaction holds the exclusive
lock of each table it has changed, and it has dropped no table. -/
structure DatabaseLog (log : List WalRecord) : Prop where
  begun : AllBegun log
  wellFormed : ∀ r ∈ log, r.WellFormed
  flat : Flat log
  placed : Placed log
  locked : log.Pairwise fun r q => Active log r.transactionId → r.directory ≠ none →
    q.directory = r.directory → q.transactionId = r.transactionId
  noDrop : ∀ r ∈ log, Active log r.transactionId → r.type ≠ .dropTable

/-- The steps of a recovery of `log`. -/
def replayActs (log : List WalRecord) : List Act :=
  (redone log).map Act.redo ++ (undone log).map Act.undo

theorem map_guard_replayActs {V : Type} (E : PageView V) (log : List WalRecord) :
    (replayActs log).map (Act.guard E) = replayGuards E log := by
  simp [replayActs, replayGuards, Function.comp_def, Act.guard]

theorem playable_replay_iff {V : Type} (E : PageView V) (fs : FileSystem) (log : List WalRecord) :
    Patch.Playable (replayGuards E log) (fs.view E) ↔
      ∀ p, (Move.run (fs.isDirectory p) ((replayActs log).map (Act.move p))).isSome = true := by
  rw [← map_guard_replayActs]
  exact Act.playable_iff_run E _ fun _ => rfl

theorem filter_partition_of_pairwise {α : Type} {l : List α} (keep : α → Bool)
    (h : l.Pairwise fun a b => keep a = true → keep b = true) :
    l.filter (!keep ·) ++ l.filter keep = l := by
  induction l with
  | nil => rfl
  | cons a l ih =>
      obtain ⟨ha, hl⟩ := List.pairwise_cons.mp h
      rcases hk : keep a with _ | _
      · simp [hk, ih hl]
      · have hall : l.filter keep = l := List.filter_eq_self.mpr fun b hb => ha b hb hk
        have hnone : l.filter (!keep ·) = [] :=
          List.filter_eq_nil_iff.mpr fun b hb => by simp [ha b hb hk]
        simp [hk, hall, hnone]

section Words

variable {log : List WalRecord} {p : Path}

/-- The records of the unfinished transaction in a directory. -/
def liveIn (log : List WalRecord) (p : Path) : List WalRecord :=
  (inDirectory log p).filter fun r => decide (Active log r.transactionId)

theorem mem_liveIn {r : WalRecord} :
    r ∈ liveIn log p ↔ r ∈ log ∧ r.directory = some p ∧ Active log r.transactionId := by
  simp [liveIn, mem_inDirectory, and_assoc]

/-- Of each directory, the unfinished transaction has the last records. -/
theorem DatabaseLog.inDirectory_eq (h : DatabaseLog log) (p : Path) :
    ∃ earlier, inDirectory log p = earlier ++ liveIn log p := by
  refine ⟨_, (filter_partition_of_pairwise
    (fun r : WalRecord => decide (Active log r.transactionId)) ?_).symm⟩
  have hpair := h.locked.filter fun r => decide (r.directory = some p)
  refine List.Pairwise.imp_of_mem (fun {a b} ha hb hab hactive => ?_) hpair
  have ha : a.directory = some p := (mem_inDirectory.mp ha).2
  have hb : b.directory = some p := (mem_inDirectory.mp hb).2
  have hactive : Active log a.transactionId := by simpa using hactive
  rw [hab hactive (by simp [ha]) (by rw [ha, hb])]
  simpa using hactive

theorem DatabaseLog.same_transaction (h : DatabaseLog log) {r q : WalRecord} (hr : r ∈ liveIn log p)
    (hq : q ∈ liveIn log p) : r.transactionId = q.transactionId := by
  obtain ⟨hr, hrd, hra⟩ := mem_liveIn.mp hr
  obtain ⟨hq, hqd, hqa⟩ := mem_liveIn.mp hq
  rcases eq_or_ne r q with rfl | hne
  · rfl
  · have hpair : log.Pairwise fun r q => (r.directory = some p → q.directory = some p →
        Active log r.transactionId → Active log q.transactionId →
          r.transactionId = q.transactionId) :=
      h.locked.imp fun {a b} hab ha hb hactive _ =>
        (hab hactive (by simp [ha]) (by rw [ha, hb])).symm
    have hsymm := List.Pairwise.forall_of_forall_of_flip (l := log) (R := fun r q =>
      r.directory = some p → q.directory = some p → Active log r.transactionId →
        Active log q.transactionId → r.transactionId = q.transactionId)
      (fun _ _ _ _ _ _ => rfl) hpair
      (hpair.imp fun {a b} hab ha hb haa hba => (hab hb ha hba haa).symm)
    exact hsymm hr hq hrd hqd hra hqa

theorem DatabaseLog.undoable (h : DatabaseLog log) {r : WalRecord} (hr : r ∈ liveIn log p) :
    WalRecordType.Undoable r.type := by
  obtain ⟨hr, hrd, hra⟩ := mem_liveIn.mp hr
  have hdrop := h.noDrop r hr hra
  unfold WalRecord.directory at hrd
  unfold WalRecordType.Undoable
  rcases htype : r.type with _ | _ | _ | _ | _ | _ | _ | _ | c <;> simp_all

theorem inDirectory_undone (log : List WalRecord) (p : Path) :
    inDirectory (undone log) p = (liveIn log p).reverse := by
  rw [undone_eq, inDirectory, List.filter_reverse, liveIn, inDirectory, List.filter_comm]

theorem inDirectory_reverse (rs : List WalRecord) (p : Path) :
    inDirectory rs.reverse p = (inDirectory rs p).reverse := List.filter_reverse

/-- The undone records of a directory are the last of its live ones. -/
theorem Interrupted.inDirectory_soFar {log' soFar : List WalRecord} {finished : List Nat}
    (h : Interrupted log log' soFar finished) (p : Path) :
    ∃ j, inDirectory soFar p = ((liveIn log p).reverse).take j := by
  obtain ⟨j, rfl⟩ := h.fromLast
  have hunder : inDirectory ((undone log).take j) p <+: inDirectory (undone log) p :=
    (List.take_prefix j _).filter _
  rw [inDirectory_undone] at hunder
  exact ⟨_, List.prefix_iff_eq_take.mp hunder⟩

end Words

/-! ## The word of a directory in an interrupted recovery -/

/-- Two words with the same effect. -/
def SameRun (ms ns : List Move) : Prop := ∀ b, Move.run b ms = Move.run b ns

theorem SameRun.append {ms ms' ns ns' : List Move} (h : SameRun ms ms') (h' : SameRun ns ns') :
    SameRun (ms ++ ns) (ms' ++ ns') := by
  intro b
  rw [Move.run_append, Move.run_append, h b]
  exact congrArg _ (funext h')

theorem SameRun.trans {ms ns ks : List Move} (h : SameRun ms ns) (h' : SameRun ns ks) :
    SameRun ms ks := fun b => (h b).trans (h' b)

theorem sameRun_nil_of_idle {ms : List Move} (h : ∀ m ∈ ms, m = .idle) : SameRun ms [] := by
  intro b
  induction ms with
  | nil => rfl
  | cons m ms ih =>
      rw [h m List.mem_cons_self]
      exact ih fun n hn => h n (List.mem_cons_of_mem _ hn)

section InterruptedWord

variable {log log' soFar : List WalRecord} {finished : List Nat} {p : Path} {q : WalRecord}

theorem reundoMove_eq (hlog : DatabaseLog log) (hq : q ∈ log) (hd : q.directory = some p)
    {r : WalRecord} (hr : r ∈ log) :
    reundoMove p r = if r.directory = some p then r.type.reundoOf else .idle := by
  have h := undoMove_eq hlog.flat hlog.placed hq hd hr
  unfold reundoMove
  rw [h]
  rcases htype : r.type with _ | _ | _ | _ | _ | _ | _ | _ | c <;>
    simp [WalRecordType.undoOf, WalRecordType.reundoOf]

theorem sameRun_redo (hlog : DatabaseLog log) (hq : q ∈ log) (hd : q.directory = some p) :
    SameRun (log.map (WalRecord.redoMove p))
      ((inDirectory log p).map fun r => r.type.redoOf) :=
  run_inDirectory fun _ hr => redoMove_eq hlog.flat hlog.placed hq hd hr

theorem sameRun_undo (hlog : DatabaseLog log) (hq : q ∈ log) (hd : q.directory = some p)
    (rs : List WalRecord) (hrs : ∀ r ∈ rs, r ∈ log) :
    SameRun (rs.map (WalRecord.undoMove p)) ((inDirectory rs p).map fun r => r.type.undoOf) :=
  run_inDirectory fun r hr => undoMove_eq hlog.flat hlog.placed hq hd (hrs r hr)

theorem sameRun_reundo (hlog : DatabaseLog log) (hq : q ∈ log) (hd : q.directory = some p)
    (rs : List WalRecord) (hrs : ∀ r ∈ rs, r ∈ log) :
    SameRun (rs.map (reundoMove p)) ((inDirectory rs p).map fun r => r.type.reundoOf) :=
  run_inDirectory fun r hr => reundoMove_eq hlog hq hd (hrs r hr)

theorem sameRun_compensations_redo (lsn : Nat) (rs : List WalRecord) :
    SameRun ((compensations lsn rs).map (WalRecord.redoMove p))
      (rs.map (WalRecord.undoMove p)) := by
  have hmap := map_compensations (g := WalRecord.undoMove p) rs
    (fun r _ hc l => redoMove_compensation hc l p) (fun _ => true) lsn
  simp only [List.filter_true] at hmap
  rw [hmap]
  exact Move.run_map_filter fun r _ hc => undoMove_of_not_compensated hc p

theorem sameRun_compensations_undo (lsn : Nat) (rs : List WalRecord) (keep : Nat → Bool) :
    SameRun (((compensations lsn rs).filter fun r => keep r.transactionId).reverse.map
        (WalRecord.undoMove p))
      ((rs.filter fun r => keep r.transactionId).reverse.map (reundoMove p)) := by
  have hmap := map_compensations (g := reundoMove p) rs
    (fun r _ hc l => undoMove_compensation hc l p) keep lsn
  rw [List.map_reverse, hmap, ← List.map_reverse, List.filter_comm, ← List.filter_reverse]
  exact Move.run_map_filter fun r _ hc => reundoMove_of_not_compensated hc p

theorem abortRecords_idle {lsn : Nat} {ids : List Nat} {r : WalRecord}
    (hr : r ∈ abortRecords lsn ids) : r.redoMove p = .idle ∧ r.undoMove p = .idle := by
  obtain ⟨id, -, l, rfl⟩ := mem_abortRecords hr
  exact ⟨rfl, rfl⟩

/-- The word of a mentioned directory when recovery starts again: redo of the
log, redo of the compensations, and undo of both where still unfinished. -/
theorem Interrupted.sameRun (h : Interrupted log log' soFar finished) (hlog : DatabaseLog log)
    (hq : q ∈ log) (hd : q.directory = some p) :
    SameRun ((replayActs log').map (Act.move p))
      ((inDirectory log p).map (fun r => r.type.redoOf) ++
        ((inDirectory soFar p).map (fun r => r.type.undoOf) ++
        (((inDirectory soFar p).filter fun r => decide (Active log' r.transactionId)).reverse.map
            (fun r => r.type.reundoOf) ++
          ((inDirectory log p).filter fun r => decide (Active log' r.transactionId)).reverse.map
            fun r => r.type.undoOf))) := by
  have hredone := redone_eq (h.allBegun hlog.begun)
  have hsoFar := fun r hr => (h.mem_soFar (r := r) hr).1
  have hfilter : ∀ rs : List WalRecord, inDirectory (rs.filter fun r =>
      decide (Active log' r.transactionId)) p =
      (inDirectory rs p).filter fun r => decide (Active log' r.transactionId) := fun rs =>
    List.filter_comm ..
  rw [replayActs, hredone, undone_eq]
  generalize hkeep : (fun t => decide (Active log' t)) = keep at hfilter ⊢
  have hkeep' : ∀ rs : List WalRecord, rs.filter (fun r => decide (Active log' r.transactionId)) =
      rs.filter fun r => keep r.transactionId := fun rs => by rw [← hkeep]
  simp only [hkeep'] at hfilter ⊢
  obtain ⟨lsn, lsn', rfl⟩ := h.shape
  have habort : SameRun ((abortRecords lsn' finished).map (WalRecord.redoMove p)) [] :=
    sameRun_nil_of_idle fun m hm => by
      obtain ⟨r, hr, rfl⟩ := List.mem_map.mp hm
      exact (abortRecords_idle hr).1
  have habort' : SameRun (((abortRecords lsn' finished).filter fun r =>
      keep r.transactionId).reverse.map (WalRecord.undoMove p)) [] :=
    sameRun_nil_of_idle fun m hm => by
      obtain ⟨r, hr, rfl⟩ := List.mem_map.mp hm
      exact (abortRecords_idle (List.mem_of_mem_filter (List.mem_reverse.mp hr))).2
  have hcomp := (sameRun_compensations_redo (p := p) lsn soFar).trans
    (sameRun_undo hlog hq hd soFar hsoFar)
  have hcomp' := (sameRun_compensations_undo (p := p) lsn soFar keep).trans
    (sameRun_reundo hlog hq hd (soFar.filter fun r => keep r.transactionId).reverse fun r hr =>
      hsoFar r (List.mem_of_mem_filter (List.mem_reverse.mp hr)))
  have hlast := sameRun_undo hlog hq hd (log.filter fun r => keep r.transactionId).reverse
    fun r hr => List.mem_of_mem_filter (List.mem_reverse.mp hr)
  rw [inDirectory_reverse, hfilter] at hcomp' hlast
  have hword := ((sameRun_redo hlog hq hd).append (hcomp.append habort)).append
    (habort'.append (hcomp'.append hlast))
  simpa [Act.move, Function.comp_def] using hword

/-- A live word whose creations stand apart from its page updates can be
undone from any of its points, and again after a restart. -/
theorem run_restart {l : List WalRecordType} (hl : ∀ x ∈ l, x.Undoable)
    (hchain : l.IsChain WalRecordType.Apart) (j : Nat) :
    (Move.run true (((l.reverse.take j).map WalRecordType.undoOf) ++
      ((l.reverse.take j).reverse.map WalRecordType.reundoOf ++
        l.reverse.map WalRecordType.undoOf))).isSome = true ∧
    (Move.run true ((l.reverse.take j).map WalRecordType.undoOf)).isSome = true := by
  have hrev : l.reverse.IsChain WalRecordType.Apart :=
    List.isChain_reverse.mpr (hchain.imp fun _ _ h => h.symm)
  have hbefore : ∀ l' : List WalRecordType, l' <+: l.reverse → l'.IsChain WalRecordType.Before := by
    intro l' hl'
    refine ( List.IsChain.prefix hrev hl').imp_of_mem_imp fun x y hx _ hxy hy => ?_
    rcases hl x (List.mem_reverse.mp (hl'.subset hx)) with rfl | rfl | rfl
    · exact Or.inl rfl
    · exact absurd ⟨rfl, hy⟩ hxy.1
    · exact Or.inr rfl
  obtain ⟨c₁, hrun₁, hlast₁⟩ := WalRecordType.run_undo
    (hbefore _ (List.take_prefix j _)) (c := true) fun _ _ _ => rfl
  obtain ⟨c₂, hrun₂, hmono, hlast₂⟩ := WalRecordType.run_reundo
    (l := (l.reverse.take j).reverse) (c := c₁)
    (fun x hx => hl x (List.mem_reverse.mp (List.mem_of_mem_take (List.mem_reverse.mp hx))))
    (List.isChain_reverse.mpr (( List.IsChain.prefix hrev (List.take_prefix j _)).imp fun _ _ h => h.symm))
    fun x hx => hlast₁ x (by rwa [List.head?_reverse] at hx)
  -- the last record is the first to be undone and the last to be taken up again
  have hhead : ∀ x ∈ l.reverse.head?, x = .pageUpdate → c₂ = true := by
    intro x hx hpage
    rcases j with _ | j
    · obtain rfl : true = c₁ := Option.some.inj hrun₁
      exact hmono rfl
    · refine hlast₂ x ?_ hpage
      rw [List.getLast?_reverse]
      rcases hl' : l.reverse with _ | ⟨y, ys⟩
      · simp [hl'] at hx
      · simpa [hl'] using hx
  obtain ⟨c₃, hrun₃, -⟩ := WalRecordType.run_undo (hbefore _ (List.prefix_refl _)) hhead
  constructor
  · rw [Move.run_append, hrun₁, Option.bind_some, Move.run_append, hrun₂, Option.bind_some, hrun₃]
    rfl
  · rw [hrun₁]
    rfl

theorem need_directory {r : WalRecord} (h : r.redoMove p = .need ∨ r.undoMove p = .need) :
    r.type = .pageUpdate ∧ r.directory = some p := by
  unfold WalRecord.redoMove WalRecord.undoMove at h
  unfold WalRecord.directory
  rcases htype : r.type with _ | _ | _ | _ | _ | _ | _ | _ | c <;> simp only [htype] at h ⊢ <;>
    grind

/-- Only the directories the log mentions are ever needed. -/
theorem Interrupted.mentioned (h : Interrupted log log' soFar finished)
    (hneed : Move.need ∈ (replayActs log').map (Act.move p)) :
    ∃ q ∈ log, q.directory = some p := by
  have hrecord : ∃ r ∈ log', r.type = .pageUpdate ∧ r.directory = some p := by
    obtain ⟨a, ha, hmove⟩ := List.mem_map.mp hneed
    rcases List.mem_append.mp ha with ha | ha
    · obtain ⟨r, hr, rfl⟩ := List.mem_map.mp ha
      exact ⟨r, mem_redone hr, need_directory (Or.inl hmove)⟩
    · obtain ⟨r, hr, rfl⟩ := List.mem_map.mp ha
      exact ⟨r, mem_undone hr, need_directory (Or.inr hmove)⟩
  obtain ⟨r, hr, htype, hdir⟩ := hrecord
  have hsoFar := fun r hr => (h.mem_soFar (r := r) hr).1
  obtain ⟨lsn, lsn', rfl⟩ := h.shape
  rcases List.mem_append.mp hr with hr | hr
  · rcases List.mem_append.mp hr with hr | hr
    · exact ⟨r, hr, hdir⟩
    · obtain ⟨q, hq, l, hc, rfl⟩ := mem_compensations hr
      refine ⟨q, hsoFar q hq, ?_⟩
      have hqtype : q.type = .pageUpdate := by
        unfold WalRecord.compensated at hc
        unfold WalRecord.compensation at htype
        rcases hq' : q.type with _ | _ | _ | _ | _ | _ | _ | _ | c <;> simp_all
      rw [directory_of_page htype, compensation_tableFile] at hdir
      rw [directory_of_page hqtype, hdir]
  · obtain ⟨id, -, l, rfl⟩ := mem_abortRecords hr
    cases htype

/-- After redo of a log the directory of a live record is there. -/
theorem DatabaseLog.live_present (hlog : DatabaseLog log) {b c : Bool}
    (hrun : Move.run b ((inDirectory log p).map fun r => r.type.redoOf) = some c)
    (hlive : liveIn log p ≠ []) : c = true := by
  obtain ⟨earlier, hsplit⟩ := hlog.inDirectory_eq p
  obtain ⟨init, r, hinit⟩ := (List.eq_nil_or_concat (liveIn log p)).resolve_left hlive
  rw [List.concat_eq_append] at hinit
  have hmove : r.type.redoOf = .need ∨ r.type.redoOf = .make := by
    rcases hlog.undoable (p := p) (r := r) (by simp [hinit]) with h | h | h <;>
      simp [h, WalRecordType.redoOf]
  rw [hsplit, hinit, ← List.append_assoc, List.map_append, List.map_singleton] at hrun
  exact Move.run_concat_eq_true hrun hmove

/-- The records of a directory that are still unfinished: all live ones or none. -/
theorem Interrupted.kept_eq (h : Interrupted log log' soFar finished) (hlog : DatabaseLog log)
    (p : Path) :
    ((inDirectory log p).filter (fun r => decide (Active log' r.transactionId)) = liveIn log p ∧
      (inDirectory soFar p).filter (fun r => decide (Active log' r.transactionId)) =
        inDirectory soFar p) ∨
    ((inDirectory log p).filter (fun r => decide (Active log' r.transactionId)) = [] ∧
      (inDirectory soFar p).filter (fun r => decide (Active log' r.transactionId)) = []) := by
  have hsoFar : ∀ r ∈ inDirectory soFar p, r ∈ liveIn log p := fun r hr => by
    obtain ⟨hr, hd⟩ := mem_inDirectory.mp hr
    exact mem_liveIn.mpr ⟨(h.mem_soFar hr).1, hd, (h.mem_soFar hr).2⟩
  have hfilter : (inDirectory log p).filter (fun r => decide (Active log' r.transactionId)) =
      (liveIn log p).filter fun r => decide (Active log' r.transactionId) := by
    rw [liveIn, List.filter_filter]
    refine List.filter_congr fun r _ => ?_
    by_cases hr : Active log' r.transactionId
    · simp [hr, (h.active_iff.mp hr).1]
    · simp [hr]
  rw [hfilter]
  by_cases hkept : ∃ r ∈ liveIn log p, Active log' r.transactionId
  · obtain ⟨r, hr, hactive⟩ := hkept
    have hall : ∀ q ∈ liveIn log p, Active log' q.transactionId := fun q hq => by
      rw [hlog.same_transaction hq hr]
      exact hactive
    exact Or.inl ⟨List.filter_eq_self.mpr fun q hq => by simpa using hall q hq,
      List.filter_eq_self.mpr fun q hq => by simpa using hall q (hsoFar q hq)⟩
  · have hnone : ∀ q ∈ liveIn log p, ¬Active log' q.transactionId := fun q hq hactive =>
      hkept ⟨q, hq, hactive⟩
    exact Or.inr ⟨List.filter_eq_nil_iff.mpr fun q hq => by simpa using hnone q hq,
      List.filter_eq_nil_iff.mpr fun q hq => by simpa using hnone q (hsoFar q hq)⟩

/-- An interrupted recovery finds every directory when started again. -/
theorem Interrupted.run_isSome (h : Interrupted log log' soFar finished) (hlog : DatabaseLog log)
    {b : Bool} (hruns : (Move.run b (log.map (WalRecord.redoMove p))).isSome = true)
    (hapart : ((liveIn log p).map (·.type)).IsChain WalRecordType.Apart) :
    (Move.run b ((replayActs log').map (Act.move p))).isSome = true := by
  by_cases hneed : Move.need ∈ (replayActs log').map (Act.move p)
  swap
  · exact Move.run_isSome_of_not_need hneed b
  obtain ⟨q, hq, hd⟩ := h.mentioned hneed
  rw [h.sameRun hlog hq hd b, Move.run_append]
  rw [sameRun_redo hlog hq hd b] at hruns
  obtain ⟨c, hc⟩ := Option.isSome_iff_exists.mp hruns
  rw [hc, Option.bind_some]
  by_cases hlive : liveIn log p = []
  · -- nothing of this directory is undone
    obtain ⟨j, hj⟩ := h.inDirectory_soFar p
    have hnil : inDirectory soFar p = [] := by rw [hj, hlive, List.reverse_nil, List.take_nil]
    rcases h.kept_eq hlog p with ⟨h1, h2⟩ | ⟨h1, h2⟩ <;> rw [h1, h2] <;> simp [hnil, hlive]
  · obtain rfl := hlog.live_present hc hlive
    obtain ⟨j, hj⟩ := h.inDirectory_soFar p
    have hword := run_restart (l := (liveIn log p).map (·.type))
      (fun x hx => by
        obtain ⟨r, hr, rfl⟩ := List.mem_map.mp hx
        exact hlog.undoable hr) hapart j
    rw [← List.map_reverse, ← List.map_take, ← List.map_reverse, List.map_map, List.map_map,
      List.map_map] at hword
    rcases h.kept_eq hlog p with ⟨h1, h2⟩ | ⟨h1, h2⟩
    · rw [h1, h2, hj]
      exact hword.1
    · rw [h1, h2, hj]
      simpa [Function.comp_def] using hword.2

end InterruptedWord

end ScratchDb
