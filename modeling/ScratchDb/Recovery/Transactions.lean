import ScratchDb.Recovery.RecordPatch

/-!
# Transactions of a log

Which transactions of a log are begun, committed, aborted or unfinished, how
one more record changes that, and what recovery redoes and undoes in these
terms.
-/

namespace ScratchDb

open WalManager

/-! ## The status of a transaction -/

/-- The log holds a record of this type for transaction `t`. -/
def HasRecord (log : List WalRecord) (type : WalRecordType) (t : Nat) : Prop :=
  ∃ r ∈ log, r.type = type ∧ r.transactionId = t

instance (log : List WalRecord) (type : WalRecordType) (t : Nat) :
    Decidable (HasRecord log type t) := by
  unfold HasRecord
  infer_instance

def Committed (log : List WalRecord) (t : Nat) : Prop := HasRecord log .commitTransaction t

def Aborted (log : List WalRecord) (t : Nat) : Prop := HasRecord log .abortTransaction t

instance (log : List WalRecord) (t : Nat) : Decidable (Committed log t) := by
  unfold Committed
  infer_instance

instance (log : List WalRecord) (t : Nat) : Decidable (Aborted log t) := by
  unfold Aborted
  infer_instance

/-- Begun and neither committed nor aborted. -/
def Active (log : List WalRecord) (t : Nat) : Prop :=
  HasRecord log .beginTransaction t ∧ ¬Committed log t ∧ ¬Aborted log t

instance (log : List WalRecord) (t : Nat) : Decidable (Active log t) := by
  unfold Active
  infer_instance

/-- Every record belongs to a transaction whose begin record the log holds. -/
def AllBegun (log : List WalRecord) : Prop :=
  ∀ r ∈ log, HasRecord log .beginTransaction r.transactionId

theorem hasRecord_append {log log' : List WalRecord} {type : WalRecordType} {t : Nat} :
    HasRecord (log ++ log') type t ↔ HasRecord log type t ∨ HasRecord log' type t := by
  simp [HasRecord, or_and_right, exists_or]

theorem hasRecord_singleton {r : WalRecord} {type : WalRecordType} {t : Nat} :
    HasRecord [r] type t ↔ r.type = type ∧ r.transactionId = t := by
  simp [HasRecord]

theorem hasRecord_concat {log : List WalRecord} {r : WalRecord} {type : WalRecordType} {t : Nat} :
    HasRecord (log ++ [r]) type t ↔
      HasRecord log type t ∨ (r.type = type ∧ r.transactionId = t) := by
  rw [hasRecord_append, hasRecord_singleton]

theorem HasRecord.append_left {log log' : List WalRecord} {type : WalRecordType} {t : Nat}
    (h : HasRecord log type t) : HasRecord (log ++ log') type t :=
  hasRecord_append.mpr (Or.inl h)

theorem AllBegun.append {log log' : List WalRecord} (h : AllBegun log)
    (h' : ∀ r ∈ log', HasRecord (log ++ log') .beginTransaction r.transactionId) :
    AllBegun (log ++ log') := by
  intro r hr
  rcases List.mem_append.mp hr with hr | hr
  · exact (h r hr).append_left
  · exact h' r hr

/-- A record that neither begins nor finishes a transaction changes no status. -/
theorem active_append_of_changes {log log' : List WalRecord} {t : Nat}
    (h : ∀ r ∈ log', r.type ≠ .beginTransaction ∧ r.type ≠ .commitTransaction ∧
      r.type ≠ .abortTransaction) : Active (log ++ log') t ↔ Active log t := by
  have hnone : ∀ type, (type = .beginTransaction ∨ type = .commitTransaction ∨
      type = .abortTransaction) → ¬HasRecord log' type t := by
    rintro type htype ⟨r, hr, rfl, -⟩
    obtain ⟨h1, h2, h3⟩ := h r hr
    rcases htype with h | h | h
    · exact h1 h
    · exact h2 h
    · exact h3 h
  simp only [Active, Committed, Aborted, hasRecord_append, hnone _ (Or.inl rfl),
    hnone _ (Or.inr (Or.inl rfl)), hnone _ (Or.inr (Or.inr rfl)), or_false]

theorem active_append_commit {log : List WalRecord} {r : WalRecord} {t : Nat}
    (hr : r.type = .commitTransaction) :
    Active (log ++ [r]) t ↔ Active log t ∧ r.transactionId ≠ t := by
  simp only [Active, Committed, Aborted, hasRecord_concat, hr, reduceCtorEq, false_and, or_false,
    true_and, not_or]
  tauto

theorem active_append_abort {log : List WalRecord} {r : WalRecord} {t : Nat}
    (hr : r.type = .abortTransaction) :
    Active (log ++ [r]) t ↔ Active log t ∧ r.transactionId ≠ t := by
  simp only [Active, Committed, Aborted, hasRecord_concat, hr, reduceCtorEq, false_and, or_false,
    true_and, not_or]
  tauto

theorem active_append_begin {log : List WalRecord} {r : WalRecord} {t : Nat}
    (hr : r.type = .beginTransaction) (hfresh : ∀ q ∈ log, q.transactionId ≠ r.transactionId) :
    Active (log ++ [r]) t ↔ Active log t ∨ r.transactionId = t := by
  have hno : ∀ type, ¬HasRecord log type r.transactionId := by
    rintro type ⟨q, hq, -, htid⟩
    exact hfresh q hq htid
  simp only [Active, Committed, Aborted, hasRecord_concat, hr, reduceCtorEq, false_and, or_false,
    true_and]
  constructor
  · rintro ⟨h | h, hc, ha⟩
    · exact Or.inl ⟨h, hc, ha⟩
    · exact Or.inr h
  · rintro (⟨h, hc, ha⟩ | rfl)
    · exact ⟨Or.inl h, hc, ha⟩
    · exact ⟨Or.inr rfl, hno _, hno _⟩

/-! ## The sets of `recover` -/

theorem mem_setInsert {id t : Nat} {ids : List Nat} :
    t ∈ setInsert id ids ↔ t = id ∨ t ∈ ids := by
  unfold setInsert
  split
  · rename_i h
    constructor
    · exact Or.inr
    · rintro (rfl | h')
      · exact h
      · exact h'
  · exact List.mem_orderedInsert _

theorem mem_foldl_setInsert {type : WalRecordType} {t : Nat} (log : List WalRecord)
    (ids : List Nat) :
    t ∈ log.foldl (fun ids r => if r.type = type then setInsert r.transactionId ids else ids) ids ↔
      t ∈ ids ∨ HasRecord log type t := by
  induction log generalizing ids with
  | nil => simp [HasRecord]
  | cons r rs ih =>
      rw [List.foldl_cons, ih]
      have hcons : HasRecord (r :: rs) type t ↔
          (r.type = type ∧ r.transactionId = t) ∨ HasRecord rs type t := by
        simp [HasRecord]
      rw [hcons]
      split
      · rename_i h
        rw [mem_setInsert]
        simp only [h, true_and, @eq_comm _ t]
        tauto
      · rename_i h
        simp [h]

theorem mem_transactionsWith {log : List WalRecord} {type : WalRecordType} {t : Nat} :
    t ∈ transactionsWith type log ↔ HasRecord log type t := by
  rw [transactionsWith, mem_foldl_setInsert]
  simp

theorem mem_losersOf {log : List WalRecord} {t : Nat} : t ∈ losersOf log ↔ Active log t := by
  simp [losersOf, mem_transactionsWith, Active, Committed, Aborted]

/-- Recovery redoes every record when all transactions are begun. -/
theorem redone_eq {log : List WalRecord} (h : AllBegun log) : redone log = log := by
  rw [redone, List.filter_eq_self]
  intro r hr
  have hbegun := h r hr
  by_cases hc : Committed log r.transactionId
  · have hmem := mem_transactionsWith.mpr hc
    simp [redoSkips, hmem]
  · by_cases ha : Aborted log r.transactionId
    · have hmem := mem_transactionsWith.mpr ha
      simp [redoSkips, hmem]
    · have hmem := mem_losersOf.mpr ⟨hbegun, hc, ha⟩
      simp [redoSkips, hmem]

theorem undone_eq (log : List WalRecord) :
    undone log = (log.filter fun r => decide (Active log r.transactionId)).reverse := by
  rw [undone, ← List.filter_reverse]
  refine List.filter_congr fun r _ => ?_
  rw [Bool.eq_iff_iff]
  simp [mem_losersOf]

theorem rolledBack_eq (t : Nat) (log : List WalRecord) :
    rolledBack t log = (log.filter (·.transactionId == t)).reverse := by
  rw [rolledBack, List.filter_reverse]

/-- The patches of recovery, when all transactions are begun. -/
theorem replayGuards_eq {V : Type} (E : PageView V) {log : List WalRecord} (h : AllBegun log) :
    replayGuards E log = log.map (WalRecord.redoGuard E) ++
      (log.filter fun r => decide (Active log r.transactionId)).reverse.map
        (WalRecord.undoGuard E) := by
  rw [replayGuards, redone_eq h, undone_eq]

/-! ## Compensation records -/

/-- The compensation records of an undo loop over `rs`. -/
def compensations (lastLsn : Nat) (rs : List WalRecord) : List WalRecord :=
  appended (undoAll lastLsn rs)

theorem appended_undoEffects (r : WalRecord) (lsn : Nat) : appended (r.undoEffects lsn) = [] := by
  unfold WalRecord.undoEffects
  rcases r.type with _ | _ | _ | _ | _ | _ | _ | _ | c <;> rfl

theorem compensations_cons (lsn : Nat) (r : WalRecord) (rs : List WalRecord) :
    compensations lsn (r :: rs) =
      (if r.compensated then [r.compensation (lsn + 1)] else []) ++
        compensations (r.lsnAfterUndo lsn) rs := by
  rw [compensations, undoAll, appended_append, ← compensations, WalRecord.undoSteps]
  split
  · rw [appended, appended_undoEffects]
  · rfl

theorem mem_compensations {lsn : Nat} {rs : List WalRecord} {q : WalRecord}
    (h : q ∈ compensations lsn rs) :
    ∃ r ∈ rs, ∃ l, r.compensated = true ∧ q = r.compensation l := by
  induction rs generalizing lsn with
  | nil => simp [compensations, undoAll, appended] at h
  | cons r rs ih =>
      rw [compensations_cons] at h
      rcases List.mem_append.mp h with h | h
      · split at h
        · rename_i hc
          exact ⟨r, List.mem_cons_self, lsn + 1, hc, List.mem_singleton.mp h⟩
        · cases h
      · obtain ⟨q', hq', rest⟩ := ih h
        exact ⟨q', List.mem_cons_of_mem _ hq', rest⟩

@[simp] theorem compensation_transactionId (r : WalRecord) (lsn : Nat) :
    (r.compensation lsn).transactionId = r.transactionId := by
  unfold WalRecord.compensation
  split <;> rfl

@[simp] theorem compensation_tableFile (r : WalRecord) (lsn : Nat) :
    (r.compensation lsn).tableFile = r.tableFile := by
  unfold WalRecord.compensation
  split <;> rfl

theorem compensation_type (r : WalRecord) (lsn : Nat) :
    (r.compensation lsn).type = .pageUpdate ∨ (r.compensation lsn).type = .dropTable ∨
      (r.compensation lsn).type = .schemaUpdate := by
  unfold WalRecord.compensation
  split <;> simp

theorem compensation_wellFormed {r : WalRecord} (h : r.WellFormed) (hc : r.compensated = true)
    (lsn : Nat) : (r.compensation lsn).WellFormed := by
  unfold WalRecord.compensated at hc
  unfold WalRecord.compensation WalRecord.WellFormed at *
  rcases htype : r.type with _ | _ | _ | _ | _ | _ | _ | _ | c <;> simp_all

end ScratchDb
