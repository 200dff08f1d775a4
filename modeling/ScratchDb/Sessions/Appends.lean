import ScratchDb.Recovery.Transactions

/-!
# What the functions of the manager append

Every function of a `WalManager` numbers its records on from the manager's own
`last_lsn_`, and the records of an undo carry the transaction id, the file and
the page of the records they take back.
-/

namespace ScratchDb

namespace WalManager

/-- The records are numbered on from `lastLsn`. -/
def NumberedFrom : Nat → List WalRecord → Prop
  | _, [] => True
  | lastLsn, r :: rs => r.lsn = lastLsn + 1 ∧ NumberedFrom (lastLsn + 1) rs

theorem numberedFrom_append {lastLsn : Nat} {rs rs' : List WalRecord} :
    NumberedFrom lastLsn (rs ++ rs') ↔
      NumberedFrom lastLsn rs ∧ NumberedFrom (lastLsn + rs.length) rs' := by
  induction rs generalizing lastLsn with
  | nil => simp [NumberedFrom]
  | cons r rs ih =>
    rw [List.cons_append, NumberedFrom, NumberedFrom, ih, List.length_cons, and_assoc]
    have h : lastLsn + 1 + rs.length = lastLsn + (rs.length + 1) := by omega
    rw [h]

theorem NumberedFrom.lsn_bounds {lastLsn : Nat} {rs : List WalRecord}
    (h : NumberedFrom lastLsn rs) {r : WalRecord} (hr : r ∈ rs) :
    lastLsn < r.lsn ∧ r.lsn ≤ lastLsn + rs.length := by
  induction rs generalizing lastLsn with
  | nil => cases hr
  | cons q rs ih =>
    rw [List.length_cons]
    rcases List.mem_cons.mp hr with rfl | hr
    · have := h.1
      omega
    · have := ih h.2 hr
      omega

theorem NumberedFrom.pairwise {lastLsn : Nat} {rs : List WalRecord} (h : NumberedFrom lastLsn rs) :
    rs.Pairwise fun a b => a.lsn < b.lsn := by
  induction rs generalizing lastLsn with
  | nil => exact .nil
  | cons r rs ih =>
    refine List.pairwise_cons.mpr ⟨fun q hq => ?_, ih h.2⟩
    have := h.1
    have := (h.2.lsn_bounds hq).1
    omega

/-- All that has happened to the log is that the manager has appended records that satisfy `P`. -/
def Appends (P : WalRecord → Prop) (w t : World) : Prop :=
  ∃ rs, t.disk.wal = w.disk.wal ++ rs ∧ NumberedFrom w.manager.lastLsn rs ∧
    t.manager.lastLsn = w.manager.lastLsn + rs.length ∧ ∀ r ∈ rs, P r

section Appends

variable {P : WalRecord → Prop}

theorem Appends.of_eq {w t : World} (hwal : t.disk.wal = w.disk.wal)
    (hlsn : t.manager.lastLsn = w.manager.lastLsn) : Appends P w t :=
  ⟨[], by simp [hwal], trivial, by simp [hlsn], by simp⟩

theorem Appends.refl (w : World) : Appends P w w := .of_eq rfl rfl

theorem Appends.trans (u v w : World) (h : Appends P u v) (h' : Appends P v w) :
    Appends P u w := by
  obtain ⟨rs, hwal, hnum, hlsn, hP⟩ := h
  obtain ⟨rs', hwal', hnum', hlsn', hP'⟩ := h'
  refine ⟨rs ++ rs', by rw [hwal', hwal, List.append_assoc], ?_, ?_, ?_⟩
  · exact numberedFrom_append.mpr ⟨hnum, hlsn ▸ hnum'⟩
  · rw [hlsn', hlsn, List.length_append, Nat.add_assoc]
  · intro r hr
    rcases List.mem_append.mp hr with hr | hr
    · exact hP r hr
    · exact hP' r hr

/-- `m` returns, and all it does to the log is to append records that satisfy `P`. -/
def Logs {α : Type} (P : WalRecord → Prop) (m : Io α) : Prop :=
  ∀ w, ∃ a t, m w = (.ok a, t) ∧ Appends P w t

theorem logs_bind {α β : Type} {m : Io α} {f : α → Io β} (hm : Logs P m) (hf : ∀ a, Logs P (f a)) :
    Logs P (m >>= f) := by
  intro w
  obtain ⟨a, t, hrun, happ⟩ := hm w
  obtain ⟨b, u, hrun', happ'⟩ := hf a t
  exact ⟨b, u, by rw [Prog.bind_ok hrun, hrun'], happ.trans _ _ _ happ'⟩

theorem logs_pure {α : Type} (a : α) : Logs P (pure a : Io α) :=
  fun w => ⟨a, w, rfl, .refl w⟩

theorem logs_ite {α : Type} {c : Prop} [Decidable c] {m m' : Io α} (h : Logs P m)
    (h' : Logs P m') : Logs P (if c then m else m') := by
  split
  · exact h
  · exact h'

theorem logs_perform {e : Effect} (he : ∀ r, e ≠ .append r) : Logs P (perform e) := by
  intro w
  unfold perform
  split
  · refine ⟨true, _, rfl, .of_eq ?_ rfl⟩
    cases e with
    | append r => exact absurd rfl (he r)
    | _ => rfl
  · exact ⟨false, w, rfl, .refl w⟩

theorem logs_appendRecord {type : WalRecordType} {t : Nat} {file : Bytes} {k : Nat}
    {before after : Bytes} {ids : List Nat}
    (h : ∀ lsn, P ⟨type, lsn, t, k, file, before, after, ids⟩) :
    Logs P (appendRecord type t file k before after ids) := by
  intro w
  refine ⟨_, _, appendRecord_eq .., _, rfl, ⟨rfl, trivial⟩, rfl, fun r hr => ?_⟩
  rw [List.mem_singleton.mp hr]
  exact h _

theorem logs_flush : Logs P flush :=
  fun _ => ⟨_, _, flush_eq _, .of_eq rfl rfl⟩

/-! ## Redo and undo -/

theorem logs_writePageImage (r : WalRecord) (image : Bytes) (lsn : Nat) :
    Logs P (writePageImage r image lsn) := by
  refine logs_ite (logs_pure _) (logs_bind (logs_perform (by simp)) fun b => ?_)
  exact logs_ite (logs_pure _) (logs_perform (by simp))

theorem logs_redoDropTable (r : WalRecord) : Logs P (redoDropTable r) :=
  logs_ite (logs_pure _) (logs_perform (by simp))

theorem logs_writeSchemaText (tableDir image : Bytes) :
    Logs P (writeSchemaText tableDir image) := by
  refine logs_ite (logs_pure _) (logs_bind (logs_perform (by simp)) fun b => ?_)
  refine logs_ite (logs_pure _) (logs_bind (logs_perform (by simp)) fun b => ?_)
  exact logs_ite (logs_pure _) (logs_perform (by simp))

theorem logs_redoCreateTable (r : WalRecord) : Logs P (redoCreateTable r) := by
  refine logs_ite (logs_pure _) (logs_bind (logs_perform (by simp)) fun b => ?_)
  refine logs_ite (logs_pure _) (logs_bind (logs_perform (by simp)) fun b => ?_)
  refine logs_ite (logs_pure _) (logs_bind (logs_perform (by simp)) fun b => ?_)
  exact logs_ite (logs_pure _) (logs_perform (by simp))

/-- Redo appends nothing. -/
theorem logs_redoRecord (r : WalRecord) : Logs P (redoRecord r) :=
  logs_ite (logs_writePageImage _ _ _) <| logs_ite (logs_redoCreateTable _) <|
    logs_ite (logs_redoDropTable _) <| logs_ite (logs_writeSchemaText _ _) (logs_pure _)

/-- `q` is of the same transaction as `r`, and if it changes a page then `r` changes that page. -/
structure TakesBack (r q : WalRecord) : Prop where
  transactionId : q.transactionId = r.transactionId
  page : q.type = .pageUpdate → r.type = .pageUpdate ∧ q.tableFile = r.tableFile ∧ q.pageId = r.pageId

/-- Undoing a record appends at most its compensation. -/
theorem logs_undoRecord {r : WalRecord} (h : ∀ q, TakesBack r q → P q) :
    Logs P (undoRecord r) := by
  unfold undoRecord
  split
  · rename_i hpage
    exact logs_bind (logs_appendRecord fun _ => h _ ⟨rfl, fun _ => ⟨hpage.1, rfl, rfl⟩⟩) fun lsn =>
      logs_ite (logs_pure _) (logs_writePageImage _ _ _)
  · refine logs_ite ?_ (logs_ite ?_ (logs_pure _))
    · exact logs_bind (logs_appendRecord fun _ => h _ ⟨rfl, by simp⟩) fun lsn =>
        logs_ite (logs_pure _) (logs_redoDropTable _)
    · exact logs_bind (logs_appendRecord fun _ => h _ ⟨rfl, by simp⟩) fun lsn =>
        logs_ite (logs_pure _) (logs_writeSchemaText _ _)

/-- An abort record is of the transaction it ends. -/
theorem logs_abortTransaction {t : Nat} (h : ∀ q, q.transactionId = t →
    q.type = .abortTransaction → P q) : Logs P (abortTransaction t) :=
  logs_appendRecord fun _ => h _ rfl rfl

theorem logs_redoLoop (skips : WalRecord → Bool) (rs : List WalRecord) :
    Logs P (redoLoop skips rs) := by
  induction rs with
  | nil => exact logs_pure _
  | cons r rs ih =>
    rw [redoLoop]
    exact logs_ite ih (logs_bind (logs_redoRecord r) fun b => logs_ite (logs_pure _) ih)

theorem logs_undoLoop {chosen : Nat → Bool} {rs : List WalRecord}
    (h : ∀ r ∈ rs, chosen r.transactionId = true → ∀ q, TakesBack r q → P q) :
    Logs P (undoLoop chosen rs) := by
  induction rs with
  | nil => exact logs_pure _
  | cons r rs ih =>
    have hrest := ih fun q hq => h q (List.mem_cons_of_mem _ hq)
    rw [undoLoop]
    split
    · exact hrest
    · rename_i hchosen
      exact logs_bind (logs_undoRecord (h r List.mem_cons_self (by simpa using hchosen)))
        fun b => logs_ite (logs_pure _) hrest

theorem logs_abortLoop {ids : List Nat} (h : ∀ t ∈ ids, ∀ q, q.transactionId = t →
    q.type = .abortTransaction → P q) : Logs P (abortLoop ids) := by
  induction ids with
  | nil => exact logs_pure _
  | cons t ids ih =>
    rw [abortLoop]
    exact logs_bind (logs_abortTransaction (h t List.mem_cons_self)) fun lsn =>
      logs_ite (logs_pure _) (ih fun u hu => h u (List.mem_cons_of_mem _ hu))

end Appends

/-! ## Recovery and rollback -/

/-- `recover` appends records of transactions of the log, after `last_lsn_` has moved up. -/
theorem appends_recover {P : WalRecord → Prop} {w : World}
    (h : ∀ r ∈ w.disk.wal, ∀ q, q.transactionId = r.transactionId → P q) :
    ∃ b t, recover w = (.ok b, t) ∧
      Appends P (w.advance [] (WalFile.maxLsn w.manager.lastLsn w.disk.wal)) t := by
  rw [recover, Prog.bind_ok (readAllRecords_eq w), Prog.bind_ok (adoptLsns_eq _ w)]
  refine logs_bind (logs_redoLoop _ _) (fun b => logs_ite (logs_pure _) ?_) _
  refine logs_bind (logs_undoLoop fun r hr _ q hq => ?_) fun b => logs_ite (logs_pure _) ?_
  · exact h r (List.mem_reverse.mp hr) q hq.transactionId
  refine logs_bind (logs_abortLoop fun t ht q hq _ => ?_) fun b =>
    logs_ite (logs_pure _) logs_flush
  obtain ⟨⟨r, hr, -, hid⟩, -⟩ := mem_losersOf.mp ht
  exact h r hr q (hq.trans hid.symm)

/-- `rollback_transaction` appends records of its transaction. -/
theorem logs_rollbackTransaction (t : Nat) :
    Logs (fun q => q.transactionId = t) (rollbackTransaction t) := by
  refine logs_ite (logs_pure _) (logs_bind (fun w => ⟨_, w, rfl, .refl w⟩) fun rs => ?_)
  refine logs_bind (logs_undoLoop fun r _ hr q hq => ?_) fun b => logs_ite (logs_pure _) ?_
  · exact hq.transactionId.trans (by simpa using hr)
  exact logs_bind (logs_abortTransaction fun q hq _ => hq) fun lsn =>
    logs_ite (logs_pure _) logs_flush

end WalManager

end ScratchDb
