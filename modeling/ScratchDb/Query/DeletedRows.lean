import ScratchDb.Query.AbortedTransactions
import ScratchDb.Query.TouchedRows

/-!
# Which rows a `DELETE` removes

A `DELETE` removes rows from the table that it scans. The rows it has not come
to yet stay where they are, so each row is met once; what is gone afterwards
are rows that matched, and a row that matched and is still there is one whose
removal the storage has refused.
-/

namespace ScratchDb

open Database

/-! ## Rows in the order of their pages -/

/-- The rows of the pages before `p`, then the others. -/
theorem InOrder.split_at_page {rows : List TableRow} (h : InOrder rows) (p : Nat) :
    rows = rows.filter (fun r => r.recordId.pageId < p) ++
      rows.filter (fun r => p ≤ r.recordId.pageId) := by
  induction rows with
  | nil => rfl
  | cons x xs ih =>
    rcases List.pairwise_cons.mp h with ⟨hx, hxs⟩
    by_cases hp : x.recordId.pageId < p
    · rw [List.filter_cons_of_pos (by simpa using hp), List.filter_cons_of_neg (by simpa using hp),
        List.cons_append, ← ih hxs]
    · -- no row behind `x` is in a page before `p`
      have hbehind : ∀ y ∈ xs, p ≤ y.recordId.pageId := by
        intro y hy
        have hprecedes := RecordId.precedes_iff.mp (hx y hy)
        omega
      have hnone : xs.filter (fun r => r.recordId.pageId < p) = [] := by
        apply List.filter_eq_nil_iff.mpr
        intro y hy
        simpa using hbehind y hy
      have hall : xs.filter (fun r => p ≤ r.recordId.pageId) = xs := by
        apply List.filter_eq_self.mpr
        intro y hy
        simpa using hbehind y hy
      rw [List.filter_cons_of_neg (by simpa using hp), List.filter_cons_of_pos (by simpa using hp),
        hnone, hall, List.nil_append]

/-- The rows from page `p` on are those of the page and those behind it. -/
theorem InOrder.filter_page_append {rows : List TableRow} (h : InOrder rows) (p : Nat) :
    rows.filter (fun r => p ≤ r.recordId.pageId) =
      rows.filter (fun r => r.recordId.pageId = p) ++
        rows.filter (fun r => p + 1 ≤ r.recordId.pageId) := by
  have hrest : InOrder (rows.filter fun r => p ≤ r.recordId.pageId) := List.Pairwise.filter _ h
  have hsplit := hrest.split_at_page (p + 1)
  rw [List.filter_filter, List.filter_filter] at hsplit
  refine hsplit.trans (congrArg₂ _ (List.filter_congr fun r _ => ?_)
    (List.filter_congr fun r _ => ?_))
  · rw [Bool.eq_iff_iff, Bool.and_eq_true, decide_eq_true_iff, decide_eq_true_iff,
      decide_eq_true_iff]
    omega
  · rw [Bool.eq_iff_iff, Bool.and_eq_true, decide_eq_true_iff, decide_eq_true_iff]
    omega

theorem InOrder.filter_prefix {rows : List TableRow} (h : InOrder rows) {p q : Nat} (hpq : p ≤ q) :
    rows.filter (fun r => r.recordId.pageId < p) <+:
      rows.filter (fun r => r.recordId.pageId < q) := by
  have hbefore : InOrder (rows.filter fun r => r.recordId.pageId < q) := List.Pairwise.filter _ h
  have hsplit := hbefore.split_at_page p
  have hsame : (rows.filter fun r => r.recordId.pageId < q).filter
      (fun r => r.recordId.pageId < p) = rows.filter fun r => r.recordId.pageId < p := by
    rw [List.filter_filter]
    refine List.filter_congr fun r _ => ?_
    rw [Bool.eq_iff_iff, Bool.and_eq_true, decide_eq_true_iff, decide_eq_true_iff]
    omega
  rw [hsame] at hsplit
  exact ⟨_, hsplit.symm⟩

namespace StoredTable

/-- The table without some of its rows. -/
def without (t : StoredTable) (removed : List TableRow) : StoredTable :=
  { t with
    rows := t.rows.filter fun r => r ∉ removed
    inOrder := t.inOrder.filter _
    inPages := fun r hr => t.inPages r (List.mem_filter.mp hr).1 }

variable {t : StoredTable} {removed : List TableRow} {x : TableRow}

theorem without_nil (t : StoredTable) : t.without [] = t := by
  have hrows : t.rows.filter (fun r => r ∉ ([] : List TableRow)) = t.rows := by
    apply List.filter_eq_self.mpr
    intro r _
    simp
  exact StoredTable.ext rfl rfl hrows

theorem mem_without : x ∈ (t.without removed).rows ↔ x ∈ t.rows ∧ x ∉ removed := by
  simp [without]

theorem without_append_singleton (hx : x ∈ t.rows) :
    t.without (removed ++ [x]) = (t.without removed).remove x.recordId := by
  refine StoredTable.ext rfl rfl ?_
  rw [remove_rows, without, without, List.filter_filter]
  refine List.filter_congr fun r hr => ?_
  have hiff : r.recordId = x.recordId ↔ r = x :=
    ⟨eq_of_recordId hr hx, congrArg TableRow.recordId⟩
  rw [Bool.eq_iff_iff, Bool.and_eq_true, decide_eq_true_iff, decide_eq_true_iff,
    decide_eq_true_iff, List.mem_append, List.mem_singleton, not_or, ne_eq, hiff, and_comm]

end StoredTable

/-! ## One removal -/

/-- What a removal of a row that is there returns, and what it has done. -/
inductive Removal (name : String) (id : RecordId) (table : StoredTable) (s t : Database) :
    Bool → Prop
  | made : t.tables = Function.update s.tables name (some (table.remove id)) →
      t.failedWrites = s.failedWrites → Removal name id table s t true
  | refused : t.tables = s.tables →
      (s.inTransaction = false → t.failedWrites = s.failedWrites + 1) → Removal name id table s t false
  /-- in a transaction the write may be made although it has failed -/
  | left : s.inTransaction = true →
      t.tables = Function.update s.tables name (some (table.remove id)) →
        Removal name id table s t false

/-- From `s` to `t` only locks have been taken. -/
structure OnlyLocks (s t : Database) : Prop where
  tables : t.tables = s.tables
  events : t.events = s.events
  transaction : t.inTransaction = s.inTransaction

theorem OnlyLocks.trans {s t u : Database} (h : OnlyLocks s t) (h' : OnlyLocks t u) :
    OnlyLocks s u :=
  ⟨h'.tables.trans h.tables, h'.events.trans h.events, h'.transaction.trans h.transaction⟩

/-- A lock request returns, and outside a transaction the lock is granted. -/
theorem acquireTransactionLock_onlyLocks {ε : Type} (name : String) (mode : TableLockMode)
    (s : Database) : ∃ locked t,
      (acquireTransactionLock name mode : Prog ε Database Bool) s = (.ok locked, t) ∧
        OnlyLocks s t ∧ (s.inTransaction = false → locked = true) := by
  have hobtain : ∀ u : Database, ∃ locked t,
      (acquireTransactionLock.obtain name mode : Prog ε Database Bool) u = (.ok locked, t) ∧
        OnlyLocks u t := by
    intro u
    rw [acquireTransactionLock.obtain, Prog.bind_ok (ask_apply u)]
    cases next u.answers <;> exact ⟨_, _, rfl, ⟨rfl, rfl, rfl⟩⟩
  rw [acquireTransactionLock, Prog.bind_ok (Prog.get_apply s)]
  by_cases hin : s.inTransaction = true
  · have hnot : s.inTransaction = false → ∀ locked : Bool, locked = true := by
      intro hout
      rw [hout] at hin
      cases hin
    rw [if_neg (not_not.mpr hin)]
    split
    · exact ⟨false, s, rfl, ⟨rfl, rfl, rfl⟩, fun hout => hnot hout _⟩
    · have hgranted : ∀ u : Database, OnlyLocks s u → ∃ locked t,
          (acquireTransactionLock.obtain name mode : Prog ε Database Bool) u = (.ok locked, t) ∧
            OnlyLocks s t ∧ (s.inTransaction = false → locked = true) := by
        intro u hu
        rcases hobtain u with ⟨locked, t, hrun, ht⟩
        exact ⟨locked, t, hrun, hu.trans ht, fun hout => hnot hout _⟩
      cases s.activeTableLocks name with
      | none => exact hgranted s ⟨rfl, rfl, rfl⟩
      | some held =>
        dsimp only
        split
        · exact ⟨true, s, rfl, ⟨rfl, rfl, rfl⟩, fun _ => rfl⟩
        · exact hgranted _ ⟨rfl, rfl, rfl⟩
  · rw [if_pos hin]
    exact ⟨true, s, rfl, ⟨rfl, rfl, rfl⟩, fun _ => rfl⟩

theorem deleteRow_removal {ε : Type} {name : String} {id : RecordId} {table : StoredTable}
    {s : Database} (htable : s.tables name = some table) (hfind : (table.find id).isSome) :
    ∃ b t, (deleteRow name id : Prog ε Database Bool) s = (.ok b, t) ∧
      t.inTransaction = s.inTransaction ∧ Removal name id table s t b := by
  rcases acquireTransactionLock_onlyLocks (ε := ε) name .exclusive s with
    ⟨locked, u, hlock, ⟨hu, hevents, hin⟩, hgranted⟩
  have hchange : (Change.delete name id).apply u.tables =
      Function.update s.tables name (some (table.remove id)) := by
    rw [Change.apply, hu, htable, Option.map_some]
  have hfailures : u.failedWrites = s.failedWrites := by rw [failedWrites, failedWrites, hevents]
  have hnone : (table.find id).isNone = false := by simpa using hfind
  rw [deleteRow, Prog.bind_ok hlock]
  cases locked with
  | false =>
    refine ⟨false, u, rfl, hin, .refused hu fun hout => ?_⟩
    cases hgranted hout
  | true =>
    simp only [not_true_eq_false, if_false]
    rw [Prog.bind_ok (Prog.get_apply u), hu, htable]
    dsimp only
    rw [hnone]
    rcases table.schema.memory_or_disk with hmode | hmode <;> rw [hmode]
    · exact ⟨true, _, rfl, hin, .made hchange hfailures⟩
    · simp only [Bool.false_eq_true, if_false]
      rw [Prog.bind_ok (ask_apply u)]
      cases next u.answers with
      | done _ => exact ⟨true, _, rfl, hin, .made hchange hfailures⟩
      | failed stays _ =>
        dsimp only
        rw [Prog.bind_apply, writeFails, Prog.bind_ok (Prog.get_apply _)]
        cases hstays : (u.inTransaction && stays) with
        | false =>
          refine ⟨false, _, rfl, hin, .refused hu fun _ => ?_⟩
          rw [← hfailures]
          exact List.countP_cons_of_pos rfl
        | true =>
          rw [Bool.and_eq_true] at hstays
          exact ⟨false, _, rfl, hin, .left (hin ▸ hstays.1) hchange⟩

/-! ## The scan -/

section Sweep

variable (parser : ValueParser) (command name : String) (condition : Option QueryCondition)
  (table : StoredTable) (s : Database)

/-- The scan of a `DELETE` that began in `s` has come over the rows `reached`. -/
structure Deleting (reached removed : List TableRow) (count : Nat) (db : Database) : Prop where
  transaction : db.inTransaction = s.inTransaction
  tables : db.tables = Function.update s.tables name (some (table.without removed))
  evaluated : ∀ r ∈ reached, ∃ matched, matchesWhere parser table.schema r condition = .ok matched
  matched : removed.Sublist (reached.filter (matchesRow parser table.schema condition))
  counted : count ≤ removed.length
  /-- outside a transaction each row that matched is gone and counted, or its removal is refused -/
  outside : s.inTransaction = false → count = removed.length ∧
    (reached.filter (matchesRow parser table.schema condition)).length + s.failedWrites =
      removed.length + db.failedWrites

/-- How a scan of the first rows `rows` of the table ends. -/
inductive Swept (rows : List TableRow) : Except QueryError (Bool × Nat) → Database → Prop
  | finished (removed : List TableRow) (count : Nat) (db : Database) :
      Deleting parser name condition table s rows removed count db →
        Swept rows (.ok (true, count)) db
  /-- the condition cannot be decided for a row -/
  | stopped (front : List TableRow) (row : TableRow) (removed : List TableRow) (count : Nat)
      (db : Database) (e : QueryError) : front ++ [row] <+: rows →
      Deleting parser name condition table s front removed count db →
        matchesWhere parser table.schema row condition = .error e →
          Swept rows (.error { e with source := command }) db

/-- What the scan of a `DELETE` calls for each row. -/
def deleteBody (count : Nat) (row : TableRow) : Prog QueryError Database (Bool × Nat) := do
  pure (true, ← withSource command (deleteCallback parser name table.schema condition count row))

variable {parser command name condition table s} {reached removed : List TableRow} {count : Nat}
  {db : Database} {x : TableRow}

theorem deleting_start (htable : s.tables name = some table) (hdb : OnlyLocks s db) :
    Deleting parser name condition table s [] [] 0 db where
  transaction := hdb.transaction
  tables := by rw [table.without_nil, ← htable, Function.update_eq_self, hdb.tables]
  evaluated r hr := absurd hr List.not_mem_nil
  matched := List.Sublist.refl []
  counted := Nat.le_refl 0
  outside _ := ⟨rfl, by rw [failedWrites, failedWrites, hdb.events]; rfl⟩

namespace Deleting

variable (h : Deleting parser name condition table s reached removed count db)
include h

theorem not_removed (hnodup : (reached ++ [x]).Nodup) : x ∉ removed := by
  intro hx
  have hreached := (List.mem_filter.mp (h.matched.subset hx)).1
  rw [List.nodup_append] at hnodup
  exact hnodup.2.2 x hreached x (List.mem_singleton_self x) rfl

/-- A row that does not match is passed. -/
theorem pass (hm : matchesWhere parser table.schema x condition = .ok false) :
    Deleting parser name condition table s (reached ++ [x]) removed count db := by
  have hmatched : matchesRow parser table.schema condition x = false := by
    rw [matchesRow, hm]
  have hfilter : (reached ++ [x]).filter (matchesRow parser table.schema condition) =
      reached.filter (matchesRow parser table.schema condition) := by
    rw [List.filter_append, List.filter_cons_of_neg (by simp [hmatched]), List.filter_nil,
      List.append_nil]
  refine ⟨h.transaction, h.tables, ?_, by rw [hfilter]; exact h.matched, h.counted,
    by rw [hfilter]; exact h.outside⟩
  intro r hr
  rcases List.mem_append.mp hr with hr | hr
  · exact h.evaluated r hr
  · exact ⟨false, List.mem_singleton.mp hr ▸ hm⟩

/-- A row that matches is removed, or the storage refuses. -/
theorem remove {t : Database} {b : Bool} (hx : x ∈ table.rows)
    (hm : matchesWhere parser table.schema x condition = .ok true)
    (ht : t.inTransaction = db.inTransaction)
    (hremoval : Removal name x.recordId (table.without removed) db t b) :
    ∃ removed', Deleting parser name condition table s (reached ++ [x]) removed'
      (if b then count + 1 else count) t := by
  have hmatched : matchesRow parser table.schema condition x = true := by
    rw [matchesRow, hm]
  have hfilter : (reached ++ [x]).filter (matchesRow parser table.schema condition) =
      reached.filter (matchesRow parser table.schema condition) ++ [x] := by
    rw [List.filter_append, List.filter_cons_of_pos hmatched, List.filter_nil]
  have hevaluated : ∀ r ∈ reached ++ [x], ∃ matched,
      matchesWhere parser table.schema r condition = .ok matched := by
    intro r hr
    rcases List.mem_append.mp hr with hr | hr
    · exact h.evaluated r hr
    · exact ⟨true, List.mem_singleton.mp hr ▸ hm⟩
  have hgone : t.tables = Function.update db.tables name
      (some ((table.without removed).remove x.recordId)) →
        t.tables = Function.update s.tables name (some (table.without (removed ++ [x]))) := by
    intro htables
    rw [htables, h.tables, Function.update_idem, StoredTable.without_append_singleton hx]
  have hsublist : (removed ++ [x]).Sublist
      ((reached ++ [x]).filter (matchesRow parser table.schema condition)) := by
    rw [hfilter]
    exact h.matched.append (List.Sublist.refl _)
  cases hremoval with
  | made htables hfailures =>
    refine ⟨removed ++ [x], ht.trans h.transaction, hgone htables, hevaluated, hsublist, ?_, ?_⟩
    · rw [if_pos rfl, List.length_append]
      exact Nat.succ_le_succ h.counted
    · intro hout
      rcases h.outside hout with ⟨hcount, hsum⟩
      rw [if_pos rfl, hfilter, List.length_append, List.length_append, hcount, hfailures]
      exact ⟨rfl, by rw [List.length_singleton]; omega⟩
  | refused htables hfailures =>
    refine ⟨removed, ht.trans h.transaction, htables.trans h.tables, hevaluated, ?_, h.counted, ?_⟩
    · exact (hfilter ▸ h.matched.trans (List.sublist_append_left _ _))
    · intro hout
      rcases h.outside hout with ⟨hcount, hsum⟩
      refine ⟨hcount, ?_⟩
      rw [hfilter, List.length_append, List.length_singleton,
        hfailures (h.transaction.trans hout)]
      omega
  | left hin htables =>
    refine ⟨removed ++ [x], ht.trans h.transaction, hgone htables, hevaluated, hsublist, ?_, ?_⟩
    · exact Nat.le_trans h.counted (by simp)
    · intro hout
      rw [h.transaction, hout] at hin
      cases hin

end Deleting

/-- One row. -/
theorem deleteBody_ends (h : Deleting parser name condition table s reached removed count db)
    (hx : reached ++ [x] <+: table.rows) :
    (deleteBody parser command name condition table count x).Ends db
      (Swept parser command name condition table s (reached ++ [x])) := by
  have hrow : x ∈ table.rows := hx.subset (List.mem_append_right _ (List.mem_singleton_self x))
  have hnodup : (reached ++ [x]).Nodup := hx.sublist.nodup table.nodup_recordIds.of_map
  rw [deleteBody, Prog.Ends, Prog.bind_apply, withSource, deleteCallback]
  cases hm : matchesWhere parser table.schema x condition with
  | error e => exact .stopped reached x removed count db e (List.prefix_refl _) h hm
  | ok matched =>
    rw [orStop_ok_bind]
    cases matched with
    | false => exact .finished removed count db (h.pass hm)
    | true =>
      have hfind : ((table.without removed).find x.recordId).isSome := by
        rw [StoredTable.find_of_mem (StoredTable.mem_without.mpr ⟨hrow, h.not_removed hnodup⟩)]
        rfl
      have htable : db.tables name = some (table.without removed) := by
        rw [h.tables, Function.update_self]
      rcases deleteRow_removal (ε := QueryError) htable hfind with ⟨b, t, hrun, hin, hremoval⟩
      rcases h.remove hrow hm hin hremoval with ⟨removed', hnext⟩
      simp only [if_true]
      rw [Prog.bind_ok hrun]
      cases b with
      | false => exact .finished removed' count t hnext
      | true => exact .finished removed' (count + 1) t hnext

/-- What a scan of fewer rows has come to, where it has stopped. -/
theorem Swept.mono {rows all : List TableRow} {e : QueryError}
    (h : Swept parser command name condition table s rows (.error e) db) (hrows : rows <+: all) :
    Swept parser command name condition table s all (.error e) db := by
  cases h with
  | stopped front row removed count db e hfront h hm =>
    exact .stopped front row removed count db e (hfront.trans hrows) h hm

theorem scanList_ends (rows : List TableRow)
    (h : Deleting parser name condition table s reached removed count db)
    (hrows : reached ++ rows <+: table.rows) :
    (scanList (deleteBody parser command name condition table) count rows).Ends db
      (Swept parser command name condition table s (reached ++ rows)) := by
  induction rows generalizing reached removed count db with
  | nil =>
    rw [List.append_nil]
    exact .finished removed count db h
  | cons x rest ih =>
    rw [List.append_cons] at hrows ⊢
    have hx : reached ++ [x] <+: table.rows := (List.prefix_append _ rest).trans hrows
    apply Prog.ends_bind (deleteBody_ends h hx)
    · intro r t hr
      cases hr with
      | finished removed' count' _ h' => exact ih h' hrows
    · intro e t he
      exact he.mono (List.prefix_append _ rest)

/-- A scan of `k` pages from page `p` on. -/
theorem scanPages_ends (p k : Nat)
    (h : Deleting parser name condition table s reached removed count db)
    (hreached : reached = table.rows.filter fun r => r.recordId.pageId < p) :
    (scanPages (deleteBody parser command name condition table) name count
      (List.range' p k)).Ends db
      (Swept parser command name condition table s
        (table.rows.filter fun r => r.recordId.pageId < p + k)) := by
  induction k generalizing p reached removed count db with
  | zero =>
    rw [Nat.add_zero, ← hreached]
    exact .finished removed count db h
  | succ k ih =>
    have htable : db.tables name = some (table.without removed) := by
      rw [h.tables, Function.update_self]
    have hfront : (table.rows.filter fun r => r.recordId.pageId < p + 1) =
        reached ++ table.rows.filter fun r => r.recordId.pageId = p := by
      have hsplit := (table.inOrder.split_at_page p).symm.trans (table.inOrder.split_at_page (p + 1))
      rw [table.inOrder.filter_page_append p, ← List.append_assoc] at hsplit
      rw [hreached, List.append_cancel_right hsplit]
    -- the rows of the page are those it had before, since only rows of pages before it are gone
    have hpage : ((table.without removed).rows.filter fun r => r.recordId.pageId = p) =
        table.rows.filter fun r => r.recordId.pageId = p := by
      rw [StoredTable.without, List.filter_filter]
      refine List.filter_congr fun r _ => ?_
      rw [Bool.eq_iff_iff, Bool.and_eq_true, decide_eq_true_iff, decide_eq_true_iff,
        and_iff_left_iff_imp]
      intro hp hr
      have hbefore := (List.mem_filter.mp (h.matched.subset hr)).1
      rw [hreached, List.mem_filter, decide_eq_true_iff] at hbefore
      omega
    have hprefix : (table.rows.filter fun r => r.recordId.pageId < p + 1) <+: table.rows :=
      ⟨_, (table.inOrder.split_at_page (p + 1)).symm⟩
    rw [List.range'_succ, scanPages, Prog.Ends, Prog.bind_ok (Prog.get_apply db), htable]
    dsimp only
    rw [hpage]
    have hlist : (scanList (deleteBody parser command name condition table) count
        (table.rows.filter fun r => r.recordId.pageId = p)).Ends db
        (Swept parser command name condition table s
          (table.rows.filter fun r => r.recordId.pageId < p + 1)) := by
      rw [hfront]
      exact scanList_ends _ h (hfront ▸ hprefix)
    have hpages : p + 1 + k = p + (k + 1) := by omega
    apply Prog.ends_bind hlist
    · intro r t hr
      cases hr with
      | finished removed' count' _ h' => exact hpages ▸ ih (p + 1) h' rfl
    · intro e t he
      exact he.mono (table.inOrder.filter_prefix (by omega))

end Sweep

/-! ## The statement -/

section Statement

variable (parser : ValueParser) (command name : String) (condition : Option QueryCondition)
  {table : StoredTable} {s db : Database}

/-- What is left of a table by a `DELETE` that began in `s`. -/
inductive Deleted (parser : ValueParser) (command name : String)
    (condition : Option QueryCondition) (table : StoredTable) (s : Database) :
    Except QueryError QueryResult → Database → Prop
  | done (removed : List TableRow) (count : Nat) (t : Database) :
      Deleting parser name condition table s table.rows removed count t →
        Deleted parser command name condition table s
          (.ok { message := "row deleted", rowCount := count }) t
  | stopped (front : List TableRow) (row : TableRow) (removed : List TableRow) (count : Nat)
      (t : Database) (e : QueryError) : front ++ [row] <+: table.rows →
      Deleting parser name condition table s front removed count t →
        matchesWhere parser table.schema row condition = .error e →
          Deleted parser command name condition table s (.error { e with source := command }) t
  /-- the transaction does not get its lock -/
  | refused (t : Database) (message : String) : s.inTransaction = true → t.tables = s.tables →
      message = "unknown table" ∨ message = "scan failed" →
        Deleted parser command name condition table s (.error (errorResult command message name)) t

/-- A scan that gets its lock comes over all rows. -/
theorem scanRows_ends (htable : s.tables name = some table)
    (hdb : OnlyLocks s db) :
    (scanRows (deleteBody parser command name condition table) name 0).Ends db fun r t =>
      Swept parser command name condition table s table.rows r t ∨
        r = .ok (false, 0) ∧ OnlyLocks s t ∧ s.inTransaction = true := by
  rcases acquireTransactionLock_onlyLocks (ε := QueryError) name .shared db with
    ⟨locked, u, hlock, hu, hgranted⟩
  rw [Prog.Ends, scanRows, Prog.bind_ok hlock]
  cases locked with
  | false =>
    refine .inr ⟨rfl, hdb.trans hu, ?_⟩
    cases hin : s.inTransaction with
    | false => cases hgranted (hdb.transaction.trans hin)
    | true => rfl
  | true =>
    have hstart : Deleting parser name condition table s [] [] 0 u :=
      deleting_start htable (hdb.trans hu)
    simp only [not_true_eq_false, if_false]
    rw [Prog.bind_ok (Prog.get_apply u), (hdb.trans hu).tables, htable]
    dsimp only
    left
    rcases table.schema.memory_or_disk with hmode | hmode <;> rw [hmode]
    · exact scanList_ends table.rows hstart (List.prefix_refl _)
    · -- all rows are in the pages that the table had when the scan began
      have hall : (table.rows.filter fun r => r.recordId.pageId < 0 + table.pageCount) =
          table.rows := by
        apply List.filter_eq_self.mpr
        intro r hr
        simpa using table.inPages r hr
      have hnone : (table.rows.filter fun r => r.recordId.pageId < 0) = [] := by
        apply List.filter_eq_nil_iff.mpr
        intro r _
        simp
      have hpages := @scanPages_ends _ command _ _ _ _ _ _ _ _ 0 table.pageCount hstart hnone.symm
      rw [hall] at hpages
      rw [List.range_eq_range']
      exact hpages

end Statement

end ScratchDb
