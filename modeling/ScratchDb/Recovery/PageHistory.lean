import Mathlib.Data.List.Induction
import ScratchDb.Recovery.Transactions

/-!
# Recovery keeps the committed page changes

Histories of page updates in transactions that begin, commit or are rolled
back. Each page's records split into those of finished transactions and a
tail of one unfinished transaction; that tail starts from the committed
content, so undoing it gives that content back whatever the disk held.
-/

namespace ScratchDb

open WalManager

/-! ## Page contents -/

namespace WalRecord

/-- The record updates page `k` of `file`. -/
def updates (file : Path) (k : Nat) (r : WalRecord) : Bool :=
  r.type = .pageUpdate && pathOf r.tableFile = file && r.pageId = k

def before (r : WalRecord) : Page := Page.ofImage r.beforeImage

def after (r : WalRecord) : Page := Page.ofImage r.afterImage

end WalRecord

/-- The records of one page. -/
def pageRecords (log : List WalRecord) (file : Path) (k : Nat) : List WalRecord :=
  log.filter (·.updates file k)

/-- The content after `records`, all of one page, from `start` on. -/
def contentAfter (start : Page) (records : List WalRecord) : Page :=
  records.foldl (fun _ r => r.after) start

/-- The page's content at the end of the log. -/
def currentContent (start : Path → Nat → Page) (log : List WalRecord) (file : Path) (k : Nat) :
    Page :=
  contentAfter (start file k) (pageRecords log file k)

/-- The content of a mentioned page that recovery owes: its first before
image with the after images of committed transactions in log order. -/
def committedContent (log : List WalRecord) (file : Path) (k : Nat) : Option Page :=
  match pageRecords log file k with
  | [] => none
  | r :: rs => some (contentAfter r.before
      ((r :: rs).filter fun q => decide (Committed log q.transactionId)))

theorem contentAfter_append (start : Page) (rs qs : List WalRecord) :
    contentAfter start (rs ++ qs) = contentAfter (contentAfter start rs) qs :=
  List.foldl_append

theorem contentAfter_concat (start : Page) (rs : List WalRecord) (r : WalRecord) :
    contentAfter start (rs ++ [r]) = r.after := by
  rw [contentAfter_append]
  rfl

theorem pageRecords_append (log log' : List WalRecord) (file : Path) (k : Nat) :
    pageRecords (log ++ log') file k = pageRecords log file k ++ pageRecords log' file k :=
  List.filter_append ..

theorem mem_pageRecords {log : List WalRecord} {file : Path} {k : Nat} {r : WalRecord} :
    r ∈ pageRecords log file k ↔ r ∈ log ∧ r.updates file k = true := List.mem_filter

/-! ## Histories -/

/-- A page record of `t` is due: `t` is unfinished, the arguments name a page,
no other unfinished transaction has written it and the before image is the
content the page has at that point. -/
structure UpdateDue (start : Path → Nat → Page) (log : List WalRecord) (t : Nat) (file : Bytes)
    (k : Nat) (before : Page) : Prop where
  active : Active log t
  named : file ≠ [] ∧ k ≠ noPageId
  exclusive : ∀ r ∈ pageRecords log (pathOf file) k, Active log r.transactionId →
    r.transactionId = t
  content : SameContent (pathOf file) before (currentContent start log (pathOf file) k)

/-- The histories of a log: calls of a `WalManager`, between which the files
change as they may. `start` is what the pages held at first. -/
inductive PageHistory (start : Path → Nat → Page) : World → Prop
  | start {w : World} : w.disk.wal = [] → PageHistory start w
  | files {w : World} (fs : FileSystem) : PageHistory start w →
      PageHistory start { w with disk := ⟨fs, w.disk.wal⟩ }
  | begin {w w' : World} {t lsn : Nat} : PageHistory start w →
      (∀ r ∈ w.disk.wal, r.transactionId ≠ t) → beginTransaction t w = (.ok lsn, w') →
      PageHistory start w'
  | update {w w' : World} {t lsn : Nat} {file : Bytes} {k : Nat} {before after : Page} :
      PageHistory start w → UpdateDue start w.disk.wal t file k before →
      logPageUpdate t file k before after w = (.ok lsn, w') → PageHistory start w'
  | updateRaw {w w' : World} {t lsn : Nat} {file : Bytes} {k : Nat} {before after : Bytes} :
      PageHistory start w → UpdateDue start w.disk.wal t file k (Page.ofImage before) →
      logPageUpdateRaw t file k before after w = (.ok lsn, w') → PageHistory start w'
  | commit {w w' : World} {t lsn : Nat} : PageHistory start w → Active w.disk.wal t →
      commitTransaction t w = (.ok lsn, w') → PageHistory start w'
  | rollback {w w' : World} {t : Nat} : PageHistory start w → Active w.disk.wal t →
      rollbackTransaction t w = (.ok true, w') → PageHistory start w'

/-! ## The invariant -/

/-- The records of one page: those of finished transactions, whose last
content is the committed one, and those of one unfinished transaction. -/
structure PageSplit (start : Path → Nat → Page) (log : List WalRecord) (file : Path) (k : Nat)
    (finished live : List WalRecord) : Prop where
  records : pageRecords log file k = finished ++ live
  finished_inactive : ∀ r ∈ finished, ¬Active log r.transactionId
  live_active : ∀ r ∈ live, Active log r.transactionId
  live_same : ∀ r ∈ live, ∀ q ∈ live, r.transactionId = q.transactionId
  settled : SameContent file (contentAfter (start file k) finished)
    (contentAfter (start file k)
      (finished.filter fun r => decide (Committed log r.transactionId)))
  first_live : ∀ r ∈ live.head?, SameContent file r.before (contentAfter (start file k) finished)
  first : ∀ r ∈ (finished ++ live).head?, SameContent file r.before (start file k)

/-- The records of a history: page updates, and records that change no file. -/
def PageOrControl (r : WalRecord) : Prop :=
  r.type = .pageUpdate ∨ r.type = .beginTransaction ∨ r.type = .commitTransaction ∨
    r.type = .abortTransaction

/-- What holds of the log at every point of a history. -/
structure PageLog (start : Path → Nat → Page) (log : List WalRecord) : Prop where
  begun : AllBegun log
  wellFormed : ∀ r ∈ log, r.WellFormed
  types : ∀ r ∈ log, PageOrControl r
  split : ∀ file k, ∃ finished live, PageSplit start log file k finished live

variable {start : Path → Nat → Page} {log : List WalRecord} {file : Path} {k : Nat}

theorem contentAfter_eq_getLast (p : Page) (rs : List WalRecord) :
    contentAfter p rs = ((rs.map WalRecord.after).getLast?).getD p := by
  induction rs using List.reverseRecOn with
  | nil => rfl
  | append_singleton rs r ih => simp [contentAfter_concat]

theorem contentAfter_of_ne_nil {rs : List WalRecord} (h : rs ≠ []) (p q : Page) :
    contentAfter p rs = contentAfter q rs := by
  rw [← List.dropLast_append_getLast h, contentAfter_concat, contentAfter_concat]

theorem contentAfter_same {p q : Page} (h : SameContent file p q) (rs : List WalRecord) :
    SameContent file (contentAfter p rs) (contentAfter q rs) := by
  by_cases hrs : rs = []
  · simpa [hrs, contentAfter] using h
  · rw [contentAfter_of_ne_nil hrs p q]
    rfl

/-- The split stays when the page gets no record and its transactions keep
their status. -/
theorem PageSplit.congr {log' finished live : List WalRecord}
    (h : PageSplit start log file k finished live)
    (hrecords : pageRecords log' file k = pageRecords log file k)
    (hactive : ∀ r ∈ finished ++ live, Active log' r.transactionId ↔ Active log r.transactionId)
    (hcommitted : ∀ r ∈ finished,
      Committed log' r.transactionId ↔ Committed log r.transactionId) :
    PageSplit start log' file k finished live where
  records := hrecords.trans h.records
  finished_inactive r hr := by
    rw [hactive r (List.mem_append_left _ hr)]
    exact h.finished_inactive r hr
  live_active r hr := by
    rw [hactive r (List.mem_append_right _ hr)]
    exact h.live_active r hr
  live_same := h.live_same
  settled := by
    have hfilter : finished.filter (fun r => decide (Committed log' r.transactionId)) =
        finished.filter fun r => decide (Committed log r.transactionId) :=
      List.filter_congr fun r hr => by simp [hcommitted r hr]
    rw [hfilter]
    exact h.settled
  first_live := h.first_live
  first := h.first

theorem PageSplit.mem {finished live : List WalRecord}
    (h : PageSplit start log file k finished live) {r : WalRecord} (hr : r ∈ finished ++ live) :
    r ∈ log :=
  (mem_pageRecords.mp (h.records ▸ hr)).1

/-! ## One step -/

theorem updates_control {r : WalRecord} (h : r.type ≠ .pageUpdate) (file : Path) (k : Nat) :
    r.updates file k = false := by
  simp [WalRecord.updates, h]

theorem pageRecords_control {r : WalRecord} (h : r.type ≠ .pageUpdate) :
    pageRecords (log ++ [r]) file k = pageRecords log file k := by
  simp [pageRecords, updates_control h]

theorem committed_append_other {r : WalRecord} (h : r.type ≠ .commitTransaction) (t : Nat) :
    Committed (log ++ [r]) t ↔ Committed log t := by
  simp [Committed, hasRecord_concat, h]

theorem PageLog.nil : PageLog start [] where
  begun r hr := by cases hr
  wellFormed r hr := by cases hr
  types r hr := by cases hr
  split file k := ⟨[], [], rfl, by simp, by simp, by simp, rfl, by simp, by simp⟩

theorem PageLog.begin (h : PageLog start log) {r : WalRecord} (htype : r.type = .beginTransaction)
    (hfresh : ∀ q ∈ log, q.transactionId ≠ r.transactionId) : PageLog start (log ++ [r]) where
  begun := h.begun.append fun q hq => by
    rw [List.mem_singleton.mp hq, hasRecord_concat]
    exact Or.inr ⟨htype, rfl⟩
  wellFormed q hq := by
    rcases List.mem_append.mp hq with hq | hq
    · exact h.wellFormed q hq
    · rw [List.mem_singleton.mp hq, WalRecord.WellFormed, htype]
      trivial
  types q hq := by
    rcases List.mem_append.mp hq with hq | hq
    · exact h.types q hq
    · rw [List.mem_singleton.mp hq]
      exact Or.inr (Or.inl htype)
  split file k := by
    obtain ⟨finished, live, hs⟩ := h.split file k
    refine ⟨finished, live, hs.congr (pageRecords_control (by simp [htype])) ?_ ?_⟩
    · intro q hq
      have hne := hfresh q (hs.mem hq)
      rw [active_append_begin htype hfresh]
      exact ⟨fun h => h.resolve_right (Ne.symm hne), Or.inl⟩
    · intro q _
      exact committed_append_other (by simp [htype]) _

theorem PageLog.update (h : PageLog start log) {r : WalRecord} (htype : r.type = .pageUpdate)
    (hform : r.WellFormed)
    (hdue : UpdateDue start log r.transactionId r.tableFile r.pageId r.before) :
    PageLog start (log ++ [r]) := by
  have hstatus : ∀ t, Active (log ++ [r]) t ↔ Active log t := fun t =>
    active_append_of_changes fun q hq => by simp [List.mem_singleton.mp hq, htype]
  have hcommitted : ∀ t, Committed (log ++ [r]) t ↔ Committed log t :=
    committed_append_other (by simp [htype])
  refine ⟨h.begun.append fun q hq => ?_, fun q hq => ?_, fun q hq => ?_, fun file k => ?_⟩
  · rw [List.mem_singleton.mp hq]
    exact hdue.active.1.append_left
  · rcases List.mem_append.mp hq with hq | hq
    · exact h.wellFormed q hq
    · rw [List.mem_singleton.mp hq]
      exact hform
  · rcases List.mem_append.mp hq with hq | hq
    · exact h.types q hq
    · rw [List.mem_singleton.mp hq]
      exact Or.inl htype
  · obtain ⟨finished, live, hs⟩ := h.split file k
    rcases hup : r.updates file k with _ | _
    · -- another page
      exact ⟨finished, live, hs.congr (by simp [pageRecords, hup]) (fun q _ => hstatus _)
        fun q _ => hcommitted _⟩
    · -- the page of the record, whose live records are those of its transaction
      obtain ⟨⟨-, rfl⟩, rfl⟩ : (r.type = .pageUpdate ∧ pathOf r.tableFile = file) ∧
          r.pageId = k := by simpa [WalRecord.updates, and_assoc] using hup
      have hlive : ∀ q ∈ live, q.transactionId = r.transactionId := fun q hq =>
        hdue.exclusive q (hs.records ▸ List.mem_append_right _ hq) (hs.live_active q hq)
      have hcontent : SameContent (pathOf r.tableFile) r.before
          (contentAfter (start (pathOf r.tableFile) r.pageId) (finished ++ live)) := by
        simpa [currentContent, hs.records] using hdue.content
      refine ⟨finished, live ++ [r], ?_, ?_, ?_, ?_, ?_, ?_, ?_⟩
      · rw [pageRecords_append, hs.records, List.append_assoc]
        simp [pageRecords, hup]
      · intro q hq
        rw [hstatus]
        exact hs.finished_inactive q hq
      · intro q hq
        rw [hstatus]
        rcases List.mem_append.mp hq with hq | hq
        · exact hs.live_active q hq
        · rw [List.mem_singleton.mp hq]
          exact hdue.active
      · have hall : ∀ q ∈ live ++ [r], q.transactionId = r.transactionId := by
          intro q hq
          rcases List.mem_append.mp hq with hq | hq
          · exact hlive q hq
          · rw [List.mem_singleton.mp hq]
        intro p hp q hq
        rw [hall p hp, hall q hq]
      · simpa only [hcommitted] using hs.settled
      · intro q hq
        rcases live with _ | ⟨l, ls⟩
        · obtain rfl : r = q := by simpa using hq
          simpa using hcontent
        · exact hs.first_live q (by simpa using hq)
      · intro q hq
        rw [← List.append_assoc] at hq
        rcases hfl : finished ++ live with _ | ⟨l, ls⟩
        · rw [hfl] at hq hcontent
          obtain rfl : r = q := by simpa using hq
          exact hcontent
        · rw [hfl] at hq
          exact hs.first q (by simpa [hfl] using hq)

theorem PageLog.commit (h : PageLog start log) {r : WalRecord}
    (htype : r.type = .commitTransaction) (hactive : Active log r.transactionId) :
    PageLog start (log ++ [r]) := by
  have hstatus : ∀ t, Active (log ++ [r]) t ↔ Active log t ∧ r.transactionId ≠ t := fun t =>
    active_append_commit htype
  have hcommitted : ∀ t, Committed (log ++ [r]) t ↔ Committed log t ∨ r.transactionId = t := by
    intro t
    simp [Committed, hasRecord_concat, htype]
  refine ⟨h.begun.append fun q hq => ?_, fun q hq => ?_, fun q hq => ?_, fun file k => ?_⟩
  · rw [List.mem_singleton.mp hq]
    exact hactive.1.append_left
  · rcases List.mem_append.mp hq with hq | hq
    · exact h.wellFormed q hq
    · rw [List.mem_singleton.mp hq, WalRecord.WellFormed, htype]
      trivial
  · rcases List.mem_append.mp hq with hq | hq
    · exact h.types q hq
    · rw [List.mem_singleton.mp hq]
      exact Or.inr (Or.inr (Or.inl htype))
  · obtain ⟨finished, live, hs⟩ := h.split file k
    have hpage : pageRecords (log ++ [r]) file k = pageRecords log file k :=
      pageRecords_control (by simp [htype])
    have hother : ∀ q ∈ finished, r.transactionId ≠ q.transactionId := fun q hq heq =>
      hs.finished_inactive q hq (heq ▸ hactive)
    by_cases hlive : ∃ q ∈ live, q.transactionId = r.transactionId
    · -- the live records are those of the transaction that commits
      obtain ⟨q₀, hq₀, hq₀t⟩ := hlive
      have hall : ∀ q ∈ live, r.transactionId = q.transactionId := fun q hq => by
        rw [← hq₀t]
        exact hs.live_same q₀ hq₀ q hq
      refine ⟨finished ++ live, [], ?_, ?_, by simp, by simp, ?_, by simp, ?_⟩
      · rw [hpage, hs.records, List.append_nil]
      · intro q hq
        rw [hstatus]
        rcases List.mem_append.mp hq with hq | hq
        · exact fun h' => hs.finished_inactive q hq h'.1
        · exact fun h' => h'.2 (hall q hq)
      · have hkeep : live.filter (fun q => decide (Committed (log ++ [r]) q.transactionId)) =
            live := List.filter_eq_self.mpr fun q hq => by simp [hcommitted, hall q hq]
        have hne : live ≠ [] := List.ne_nil_of_mem hq₀
        rw [List.filter_append, hkeep, contentAfter_append, contentAfter_append,
          contentAfter_of_ne_nil hne]
        rfl
      · simpa using hs.first
    · refine ⟨finished, live, hs.congr hpage ?_ ?_⟩
      · intro q hq
        rw [hstatus]
        rcases List.mem_append.mp hq with hq | hq
        · exact ⟨And.left, fun h' => ⟨h', hother q hq⟩⟩
        · exact ⟨And.left, fun h' => ⟨h', fun heq => hlive ⟨q, hq, heq.symm⟩⟩⟩
      · intro q hq
        rw [hcommitted]
        exact ⟨fun h' => h'.resolve_right (hother q hq), Or.inl⟩

/-! ## Rollback -/

theorem compensation_updates {r : WalRecord} (hc : r.compensated = true) (lsn : Nat) :
    (r.compensation lsn).updates file k = r.updates file k := by
  unfold WalRecord.compensated at hc
  unfold WalRecord.updates WalRecord.compensation
  rcases htype : r.type with _ | _ | _ | _ | _ | _ | _ | _ | c <;> simp_all

theorem compensation_after {r : WalRecord} (htype : r.type = .pageUpdate) (lsn : Nat) :
    (r.compensation lsn).after = r.before := by
  simp [WalRecord.compensation, htype, WalRecord.after, WalRecord.before]

theorem updates_compensated {r : WalRecord} (h : r.updates file k = true) :
    r.type = .pageUpdate ∧ r.compensated = true := by
  have htype : r.type = .pageUpdate := by
    by_contra hne
    rw [updates_control hne] at h
    cases h
  exact ⟨htype, by simp [WalRecord.compensated, htype]⟩

/-- The compensation records of a page carry its before images. -/
theorem after_pageRecords_compensations (lsn : Nat) (rs : List WalRecord) :
    (pageRecords (compensations lsn rs) file k).map WalRecord.after =
      (pageRecords rs file k).map WalRecord.before := by
  induction rs generalizing lsn with
  | nil => rfl
  | cons r rs ih =>
      rw [compensations_cons, pageRecords_append, List.map_append, ih]
      rcases hup : r.updates file k with _ | _
      · have hnil : pageRecords (if r.compensated then [r.compensation (lsn + 1)] else [])
            file k = [] := by
          rcases hc : r.compensated with _ | _
          · rfl
          · simp [pageRecords, compensation_updates hc, hup]
        rw [hnil]
        simp [pageRecords, hup]
      · obtain ⟨htype, hc⟩ := updates_compensated hup
        simp [pageRecords, hc, compensation_updates hc, hup, compensation_after htype]

theorem appended_rollbackEffects (lsn t : Nat) (log : List WalRecord) :
    appended (rollbackEffects lsn t log) = compensations lsn (rolledBack t log) ++
      [abortRecord t (lsnAfterUndoAll lsn (rolledBack t log) + 1)] := by
  rw [rollbackEffects, appended_append, compensations]
  rfl

theorem compensations_tid {lsn t : Nat} {q : WalRecord}
    (h : q ∈ compensations lsn (rolledBack t log)) : q.transactionId = t := by
  obtain ⟨r, hr, l, -, rfl⟩ := mem_compensations h
  rw [compensation_transactionId]
  exact (mem_rolledBack.mp hr).2

theorem pageRecords_rolledBack (t : Nat) :
    pageRecords (rolledBack t log) file k =
      ((pageRecords log file k).filter (·.transactionId == t)).reverse := by
  rw [rolledBack_eq, pageRecords, List.filter_reverse, List.filter_comm, pageRecords]

theorem PageLog.rollback (h : PageLog start log) {t : Nat} (hactive : Active log t) (lsn : Nat) :
    PageLog start (log ++ appended (rollbackEffects lsn t log)) := by
  set comps := compensations lsn (rolledBack t log) with hcomps
  set abort := abortRecord t (lsnAfterUndoAll lsn (rolledBack t log) + 1) with habort
  rw [appended_rollbackEffects, ← hcomps, ← habort, ← List.append_assoc]
  have hchanges : ∀ q ∈ comps, q.type ≠ .beginTransaction ∧ q.type ≠ .commitTransaction ∧
      q.type ≠ .abortTransaction := by
    intro q hq
    obtain ⟨r, -, l, -, rfl⟩ := mem_compensations hq
    rcases compensation_type r l with h' | h' | h' <;> simp [h']
  have hstatus : ∀ u, Active (log ++ comps ++ [abort]) u ↔ Active log u ∧ t ≠ u := by
    intro u
    rw [active_append_abort rfl, active_append_of_changes hchanges]
    rfl
  have hcommitted : ∀ u, Committed (log ++ comps ++ [abort]) u ↔ Committed log u := by
    intro u
    rw [committed_append_other (by simp [habort, abortRecord]), Committed, hasRecord_append]
    refine ⟨fun h' => h'.resolve_right ?_, Or.inl⟩
    rintro ⟨q, hq, htype, -⟩
    exact (hchanges q hq).2.1 htype
  have hcompType : ∀ q ∈ comps, q.type = .pageUpdate := by
    intro q hq
    obtain ⟨r, hr, l, hc, rfl⟩ := mem_compensations hq
    rcases h.types r (mem_rolledBack.mp hr).1 with h' | h' | h' | h'
    · simp [WalRecord.compensation, h']
    all_goals simp [WalRecord.compensated, h'] at hc
  refine ⟨?_, ?_, ?_, fun file k => ?_⟩
  · rw [List.append_assoc]
    refine h.begun.append fun q hq => ?_
    have hq : q.transactionId = t := by
      rcases List.mem_append.mp hq with hq | hq
      · exact compensations_tid hq
      · rw [List.mem_singleton.mp hq]
        rfl
    rw [hq]
    exact hactive.1.append_left
  · intro q hq
    rcases List.mem_append.mp hq with hq | hq
    · rcases List.mem_append.mp hq with hq | hq
      · exact h.wellFormed q hq
      · obtain ⟨r, hr, l, hc, rfl⟩ := mem_compensations hq
        exact compensation_wellFormed (h.wellFormed r (mem_rolledBack.mp hr).1) hc l
    · rw [List.mem_singleton.mp hq]
      trivial
  · intro q hq
    rcases List.mem_append.mp hq with hq | hq
    · rcases List.mem_append.mp hq with hq | hq
      · exact h.types q hq
      · exact Or.inl (hcompType q hq)
    · rw [List.mem_singleton.mp hq]
      exact Or.inr (Or.inr (Or.inr rfl))
  · obtain ⟨finished, live, hs⟩ := h.split file k
    have hpage : pageRecords (log ++ comps ++ [abort]) file k =
        finished ++ live ++ pageRecords comps file k := by
      rw [pageRecords_control (by simp [habort, abortRecord]), pageRecords_append, hs.records]
    have hafter : (pageRecords comps file k).map WalRecord.after =
        ((finished ++ live).filter (·.transactionId == t)).reverse.map WalRecord.before := by
      rw [hcomps, after_pageRecords_compensations, pageRecords_rolledBack, hs.records]
    have hother : ∀ q ∈ finished, t ≠ q.transactionId := fun q hq heq =>
      hs.finished_inactive q hq (heq ▸ hactive)
    have hfinished : finished.filter (·.transactionId == t) = [] := by
      rw [List.filter_eq_nil_iff]
      intro q hq
      simpa using Ne.symm (hother q hq)
    rw [List.filter_append, hfinished, List.nil_append] at hafter
    by_cases hlive : ∃ q ∈ live, q.transactionId = t
    · -- the live records are taken back, last one first
      obtain ⟨q₀, hq₀, rfl⟩ := hlive
      have hall : ∀ q ∈ live, q.transactionId = q₀.transactionId := fun q hq =>
        hs.live_same q hq q₀ hq₀
      rw [List.filter_eq_self.mpr fun q hq => by simp [hall q hq]] at hafter
      obtain ⟨l, ls, rfl⟩ := List.exists_cons_of_ne_nil (List.ne_nil_of_mem hq₀)
      have hcur : ∀ p, contentAfter p (pageRecords comps file k) = l.before := by
        intro p
        rw [contentAfter_eq_getLast, hafter]
        simp
      have huncommitted : ((l :: ls) ++ pageRecords comps file k).filter
          (fun q => decide (Committed (log ++ comps ++ [abort]) q.transactionId)) = [] := by
        rw [List.filter_eq_nil_iff]
        intro q hq
        have hqt : q.transactionId = q₀.transactionId := by
          rcases List.mem_append.mp hq with hq | hq
          · exact hall q hq
          · exact compensations_tid (mem_pageRecords.mp hq).1
        rw [decide_eq_true_eq, hcommitted, hqt]
        exact hactive.2.1
      have hkept : (finished ++ (l :: ls) ++ pageRecords comps file k).filter
          (fun q => decide (Committed (log ++ comps ++ [abort]) q.transactionId)) =
          finished.filter fun q => decide (Committed log q.transactionId) := by
        rw [List.append_assoc finished, List.filter_append, huncommitted, List.append_nil]
        exact List.filter_congr fun q _ => decide_eq_decide.mpr (hcommitted _)
      refine ⟨finished ++ (l :: ls) ++ pageRecords comps file k, [], ?_, ?_, by simp, by simp, ?_,
        by simp, ?_⟩
      · rw [hpage, List.append_nil]
      · intro q hq
        rw [hstatus]
        rcases List.mem_append.mp hq with hq | hq
        · rcases List.mem_append.mp hq with hq | hq
          · exact fun h' => hs.finished_inactive q hq h'.1
          · exact fun h' => h'.2 (hall q hq).symm
        · exact fun h' => h'.2 (compensations_tid (mem_pageRecords.mp hq).1).symm
      · rw [contentAfter_append, hcur, hkept]
        exact (hs.first_live l (by simp)).trans hs.settled
      · intro q hq
        refine hs.first q ?_
        rcases finished with _ | ⟨p, ps⟩ <;> simpa using hq
    · have hnil : pageRecords comps file k = [] := by
        have hempty : live.filter (·.transactionId == t) = [] := by
          rw [List.filter_eq_nil_iff]
          intro q hq
          simpa using fun heq => hlive ⟨q, hq, heq⟩
        simpa [hempty] using hafter
      refine ⟨finished, live, hs.congr (by rw [hpage, hnil, List.append_nil, hs.records]) ?_ ?_⟩
      · intro q hq
        rw [hstatus]
        rcases List.mem_append.mp hq with hq | hq
        · exact ⟨And.left, fun h' => ⟨h', hother q hq⟩⟩
        · exact ⟨And.left, fun h' => ⟨h', fun heq => hlive ⟨q, hq, heq.symm⟩⟩⟩
      · exact fun q _ => hcommitted _

/-! ## Every history -/

theorem appendRecord_wal {type : WalRecordType} {t : Nat} {f : Bytes} {j : Nat}
    {before after : Bytes} {w w' : World} {lsn : Nat}
    (h : appendRecord type t f j before after [] w = (.ok lsn, w')) :
    w'.disk.wal = w.disk.wal ++ [⟨type, w.manager.lastLsn + 1, t, j, f, before, after, []⟩] := by
  rw [appendRecord_eq] at h
  obtain ⟨-, rfl⟩ := Prod.mk.inj h
  rfl

/-- The invariant holds at every point of a history. -/
theorem pageLog_of_history {w : World} (h : PageHistory start w) : PageLog start w.disk.wal := by
  induction h with
  | start hw =>
      rw [hw]
      exact PageLog.nil
  | files fs _ ih => exact ih
  | begin _ hfresh hcall ih =>
      rw [appendRecord_wal hcall]
      exact ih.begin rfl hfresh
  | update _ hdue hcall ih =>
      rw [appendRecord_wal hcall]
      exact ih.update rfl ⟨hdue.named.2, hdue.named.1, by simp, by simp⟩
        (by simpa [WalRecord.before] using hdue)
  | updateRaw _ hdue hcall ih =>
      rw [logPageUpdateRaw] at hcall
      split at hcall
      · -- an image of the wrong size: nothing is logged
        obtain ⟨-, rfl⟩ := Prod.mk.inj hcall
        exact ih
      · rename_i hsize
        rw [appendRecord_wal hcall]
        simp only [not_or, not_not] at hsize
        exact ih.update rfl ⟨hdue.named.2, hdue.named.1, hsize.1, hsize.2⟩
          (by simpa [WalRecord.before] using hdue)
  | commit _ hactive hcall ih =>
      rw [appendRecord_wal hcall]
      exact ih.commit rfl hactive
  | @rollback w w' t _ hactive hcall ih =>
      have hdone : (rollbackTransaction t w).1 = .ok true := by rw [hcall]
      have ht : t ≠ 0 := by
        rintro rfl
        cases hdone
      have hp := (rollback_true_iff contentView ht ih.wellFormed).mp hdone
      rw [← playable_undoAll contentView _ w.manager.lastLsn, ← Effect.performable_iff] at hp
      rw [rollbackTransaction_ok ht ih.wellFormed hp] at hcall
      obtain ⟨-, rfl⟩ := Prod.mk.inj hcall
      exact ih.rollback hactive w.manager.lastLsn

/-! ## Recovery -/

section Recovery

variable {V : Type} (E : PageView V)

theorem redoPatch_page (r : WalRecord) (h : PageOrControl r) :
    r.redoPatch E (.page file k) =
      if r.updates file k then some (.page (E.look file r.after)) else none := by
  unfold WalRecord.redoPatch WalRecord.updates WalRecord.after
  rcases h with h | h | h | h <;> simp only [h]
  · by_cases hp : file = pathOf r.tableFile ∧ k = r.pageId
    · obtain ⟨rfl, rfl⟩ := hp
      simp [pagePatch]
    · have hp' : ¬(pathOf r.tableFile = file ∧ r.pageId = k) := fun h' => hp ⟨h'.1.symm, h'.2.symm⟩
      simp [pagePatch, hp, hp']
  all_goals rfl

theorem undoPatch_page (r : WalRecord) (h : PageOrControl r) :
    r.undoPatch E (.page file k) =
      if r.updates file k then some (.page (E.look file r.before)) else none := by
  unfold WalRecord.undoPatch WalRecord.updates WalRecord.before
  rcases h with h | h | h | h <;> simp only [h]
  · by_cases hp : file = pathOf r.tableFile ∧ k = r.pageId
    · obtain ⟨rfl, rfl⟩ := hp
      simp [pagePatch]
    · have hp' : ¬(pathOf r.tableFile = file ∧ r.pageId = k) := fun h' => hp ⟨h'.1.symm, h'.2.symm⟩
      simp [pagePatch, hp, hp']
  all_goals rfl

theorem patch_directory (r : WalRecord) (h : PageOrControl r) (p : Path) :
    r.redoPatch E (.directory p) = none ∧ r.undoPatch E (.directory p) = none := by
  unfold WalRecord.redoPatch WalRecord.undoPatch
  rcases h with h | h | h | h <;> simp only [h] <;> exact ⟨rfl, rfl⟩

/-- Page patches never move a directory, so what is ready stays ready. -/
theorem playable_of_directories {gs : List (Patch.Guarded Loc (Val V))} {s : Loc → Val V}
    (hdir : ∀ g ∈ gs, ∀ p, g.patch (.directory p) = none)
    (hready : ∀ g ∈ gs, ∀ t : Loc → Val V,
      (∀ p, t (.directory p) = s (.directory p)) → g.ready t) : Patch.Playable gs s := by
  suffices h : ∀ t : Loc → Val V, (∀ p, t (.directory p) = s (.directory p)) →
      Patch.Playable gs t from h s fun _ => rfl
  induction gs with
  | nil => exact fun _ _ => trivial
  | cons g gs ih =>
      intro t ht
      have hnext : ∀ p, g.patch.apply t (.directory p) = s (.directory p) := fun p => by
        rw [Patch.apply_of_none (hdir g List.mem_cons_self p), ht]
      exact ⟨hready g List.mem_cons_self t ht,
        ih (fun q hq => hdir q (List.mem_cons_of_mem _ hq))
          (fun q hq => hready q (List.mem_cons_of_mem _ hq)) _ hnext⟩

/-- What a list of page patches assigns to one page is what its last record of
that page does. -/
theorem last_page (file : Path) (k : Nat) {f : WalRecord → Patch Loc (Val V)}
    (image : WalRecord → Page) (rs : List WalRecord) (hf : ∀ r ∈ rs, f r (.page file k) =
      if r.updates file k then some (.page (E.look file (image r))) else none) :
    Patch.last (rs.map f) (.page file k) =
      ((pageRecords rs file k).getLast?).map fun r => .page (E.look file (image r)) := by
  induction rs using List.reverseRecOn with
  | nil => rfl
  | append_singleton rs r ih =>
      have ih := ih fun q hq => hf q (List.mem_append_left _ hq)
      rw [List.map_append, List.map_singleton, Patch.last_concat, ih, hf r (by simp),
        pageRecords_append]
      rcases hup : r.updates file k with _ | _ <;> simp [pageRecords, hup]

end Recovery

/-- What recovery assigns to a page of a history: the first live before image,
and the last after image where nothing is live. -/
theorem PageSplit.last_replay {V : Type} (E : PageView V) {finished live : List WalRecord}
    (hlog : PageLog start log) (hs : PageSplit start log file k finished live) :
    Patch.last ((replayGuards E log).map Patch.Guarded.patch) (.page file k) =
      ((live.head?).map fun r => .page (E.look file r.before)).or
        (((finished ++ live).getLast?).map fun r => .page (E.look file r.after)) := by
  have hundone : pageRecords ((log.filter fun r => decide (Active log r.transactionId)).reverse)
      file k = live.reverse := by
    have hfin : finished.filter (fun r => decide (Active log r.transactionId)) = [] :=
      List.filter_eq_nil_iff.mpr fun r hr => by simpa using hs.finished_inactive r hr
    have hlive : live.filter (fun r => decide (Active log r.transactionId)) = live :=
      List.filter_eq_self.mpr fun r hr => by simpa using hs.live_active r hr
    rw [pageRecords, List.filter_reverse, List.filter_comm, ← pageRecords, hs.records,
      List.filter_append, hfin, hlive, List.nil_append]
  have hredo := last_page E file k WalRecord.after log fun r hr =>
    redoPatch_page E r (hlog.types r hr)
  have hundo := last_page E file k WalRecord.before
    (log.filter fun r => decide (Active log r.transactionId)).reverse fun r hr =>
      undoPatch_page E r (hlog.types r (List.mem_of_mem_filter (List.mem_reverse.mp hr)))
  rw [replayGuards_eq E hlog.begun, List.map_append, Patch.last_append, List.map_map,
    List.map_map]
  simp only [Function.comp_def, WalRecord.redoGuard, WalRecord.undoGuard]
  rw [hredo, hundo, hundone, hs.records, List.getLast?_reverse]

/-- The page recovery leaves has the committed content. -/
theorem PageSplit.same_committed {finished live : List WalRecord} {c : Page}
    (hs : PageSplit start log file k finished live) (hc : committedContent log file k = some c) :
    ∃ p, ((live.head?).map WalRecord.before).or (((finished ++ live).getLast?).map
      WalRecord.after) = some p ∧ SameContent file p c := by
  have hlive : live.filter (fun r => decide (Committed log r.transactionId)) = [] :=
    List.filter_eq_nil_iff.mpr fun r hr => by simpa using (hs.live_active r hr).2.1
  rw [committedContent, hs.records] at hc
  rcases hrecords : finished ++ live with _ | ⟨r, rs⟩
  · simp [hrecords] at hc
  · rw [hrecords] at hc
    have hfirst : SameContent file (start file k) r.before :=
      (hs.first r (by simp [hrecords])).symm
    have hcommitted : SameContent file (contentAfter (start file k) finished) c := by
      rw [← Option.some.inj hc, ← hrecords, List.filter_append, hlive, List.append_nil]
      exact hs.settled.trans (contentAfter_same hfirst _)
    rcases live with _ | ⟨l, ls⟩
    · rw [List.append_nil] at hrecords
      rw [← hrecords]
      rcases List.eq_nil_or_concat finished with rfl | ⟨init, last, rfl⟩
      · cases hrecords
      · rw [List.concat_eq_append] at hcommitted ⊢
        rw [contentAfter_concat] at hcommitted
        exact ⟨last.after, by simp, hcommitted⟩
    · exact ⟨l.before, by simp, (hs.first_live l (by simp)).trans hcommitted⟩

/-- Recovery keeps exactly the committed page changes: after any history and
with any files on disk whose directories exist, `recover` returns true and
leaves every mentioned page with its committed content. -/
theorem recover_keeps_committed_pages {w : World} (h : PageHistory start w) (fs : FileSystem)
    (hfs : ∀ r ∈ w.disk.wal, r.type = .pageUpdate → fs.parentExists (pathOf r.tableFile) = true)
    (manager : WalManager) (trace : List IoEvent) :
    (recover ⟨⟨fs, w.disk.wal⟩, manager, trace⟩).1 = .ok true ∧
      ∀ file k c, committedContent w.disk.wal file k = some c → SameContent file
        ((recover ⟨⟨fs, w.disk.wal⟩, manager, trace⟩).2.disk.fs.pageAt file k) c := by
  set crashed : World := ⟨⟨fs, w.disk.wal⟩, manager, trace⟩
  have hlog : PageLog start crashed.disk.wal := (pageLog_of_history h : PageLog start w.disk.wal)
  have hplay : Patch.Playable (replayGuards contentView crashed.disk.wal)
      (crashed.disk.fs.view contentView) := by
    have hmem : ∀ g ∈ replayGuards contentView crashed.disk.wal, ∃ r ∈ crashed.disk.wal,
        g = r.redoGuard contentView ∨ g = r.undoGuard contentView := by
      intro g hg
      rw [replayGuards_eq contentView hlog.begun] at hg
      rcases List.mem_append.mp hg with hg | hg
      · obtain ⟨r, hr, rfl⟩ := List.mem_map.mp hg
        exact ⟨r, hr, Or.inl rfl⟩
      · obtain ⟨r, hr, rfl⟩ := List.mem_map.mp hg
        exact ⟨r, List.mem_of_mem_filter (List.mem_reverse.mp hr), Or.inr rfl⟩
    refine playable_of_directories ?_ ?_
    · intro g hg p
      obtain ⟨r, hr, rfl | rfl⟩ := hmem g hg
      · exact (patch_directory contentView r (hlog.types r hr) p).1
      · exact (patch_directory contentView r (hlog.types r hr) p).2
    · intro g hg t ht
      obtain ⟨r, hr, hr'⟩ := hmem g hg
      have hready : r.Ready t := fun htype => by
        have hfinds := finds_view_iff (E := contentView).mpr (hfs r hr htype)
        rwa [Finds, ht]
      rcases hr' with rfl | rfl <;> exact hready
  refine ⟨(recover_true_iff contentView hlog.wellFormed).mpr hplay, fun file k c hc => ?_⟩
  obtain ⟨finished, live, hs⟩ := hlog.split file k
  obtain ⟨p, hp, hsame⟩ := hs.same_committed hc
  have hlast := hs.last_replay contentView hlog
  have hview := congrFun (view_recover contentView hlog.wellFormed hplay) (.page file k)
  rw [Patch.play, Patch.applyAll_eq_last] at hview
  have hvalue : Patch.last ((replayGuards contentView crashed.disk.wal).map Patch.Guarded.patch)
      (.page file k) = some (.page (contentView.look file p)) := by
    rw [hlast, ← Option.map_some (f := fun p => Val.page (contentView.look file p)), ← hp,
      Option.map_or, Option.map_map, Option.map_map]
    rfl
  rw [Patch.apply_of_some hvalue, FileSystem.view_page] at hview
  exact (Val.page.inj hview).trans hsame

/-- All directories exist. -/
def emptyFiles : FileSystem := ⟨fun _ => true, fun _ => none, fun _ => none⟩

/-- A committed update of page 0 of table `d`, and one of page 1 that does not
commit. -/
def twoUpdates : World :=
  let file := joinPath [100] tableFileName
  let w := (beginTransaction 1 ⟨⟨emptyFiles, []⟩, ⟨0, 0⟩, []⟩).2
  let w := (commitTransaction 1 (logPageUpdate 1 file 0 Page.zero Page.blank w).2).2
  (logPageUpdate 2 file 1 Page.zero Page.blank (beginTransaction 2 w).2).2

theorem pageHistory_twoUpdates : PageHistory (fun _ _ => Page.zero) twoUpdates := by
  refine PageHistory.update (t := 2) (PageHistory.begin (PageHistory.commit (t := 1)
    (PageHistory.update (t := 1) (PageHistory.begin (PageHistory.start rfl) ?_ rfl) ?_ rfl)
    ?_ rfl) ?_ rfl) ?_ rfl
  · simp
  · exact ⟨by decide, by decide, by decide, rfl⟩
  · decide
  · decide
  · exact ⟨by decide, by decide, by decide, rfl⟩

theorem recover_keeps_committed_pages_twoUpdates :
    (recover ⟨⟨emptyFiles, twoUpdates.disk.wal⟩, ⟨0, 0⟩, []⟩).1 = .ok true ∧
      ∀ file k c, committedContent twoUpdates.disk.wal file k = some c → SameContent file
        ((recover ⟨⟨emptyFiles, twoUpdates.disk.wal⟩, ⟨0, 0⟩, []⟩).2.disk.fs.pageAt file k) c :=
  recover_keeps_committed_pages pageHistory_twoUpdates emptyFiles
    (fun _ _ _ => by simp [FileSystem.parentExists, emptyFiles]) ⟨0, 0⟩ []

end ScratchDb
