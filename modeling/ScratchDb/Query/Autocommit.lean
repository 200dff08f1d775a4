import ScratchDb.Query.Executor

/-!
# Statements outside a transaction

Outside a transaction every lock request is met at once, so what reads only
is a function of the tables. The checks of the constraints are such programs,
and what they establish is read off here.
-/

namespace ScratchDb

open Database

variable {ε α β : Type}

theorem SchemaParts.memory_or_disk (s : SchemaParts) :
    s.storageMode = .memory ∨ s.storageMode = .disk := by
  cases s.storageMode <;> simp

/-- A database outside a transaction. -/
def autocommit (t : Tables) (answers : List Answer) : Database where
  tables := t
  inTransaction := false
  transactionAborted := false
  activeTableLocks := fun _ => none
  answers
  events := []

/-! ## Scans of the rows in order -/

/-- Rows in order are those up to a page followed by those on the page. -/
theorem InOrder.filter_page_succ {rows : List TableRow} (h : InOrder rows) (n : Nat) :
    rows.filter (fun r => r.recordId.pageId < n + 1) =
      rows.filter (fun r => r.recordId.pageId < n) ++ rows.filter fun r => r.recordId.pageId = n := by
  induction rows with
  | nil => rfl
  | cons x xs ih =>
    obtain ⟨hx, hxs⟩ := List.pairwise_cons.mp h
    specialize ih hxs
    rcases Nat.lt_trichotomy x.recordId.pageId n with hlt | heq | hgt
    · rw [List.filter_cons_of_pos (by simp; omega), List.filter_cons_of_pos (by simpa using hlt),
        List.filter_cons_of_neg (by simp; omega), ih, List.cons_append]
    · -- no later row is on an earlier page
      have hnone : xs.filter (fun r => r.recordId.pageId < n) = [] := by
        refine List.filter_eq_nil_iff.mpr fun r hr => ?_
        have := RecordId.precedes_iff.mp (hx r hr)
        simp only [decide_eq_true_eq]
        omega
      rw [List.filter_cons_of_pos (by simp; omega), List.filter_cons_of_neg (by simp; omega),
        List.filter_cons_of_pos (by simpa using heq), ih, hnone, List.nil_append, List.nil_append]
    · rw [List.filter_cons_of_neg (by simp; omega), List.filter_cons_of_neg (by simp; omega),
        List.filter_cons_of_neg (by simp; omega), ih]

/-- The rows of a table, page by page. -/
theorem StoredTable.flatMap_pages (t : StoredTable) :
    ((List.range t.pageCount).flatMap fun p => t.rows.filter fun r => r.recordId.pageId = p) =
      t.rows := by
  have h : ∀ n, ((List.range n).flatMap fun p => t.rows.filter fun r => r.recordId.pageId = p) =
      t.rows.filter fun r => r.recordId.pageId < n := by
    intro n
    induction n with
    | zero => simp
    | succ n ih =>
      rw [List.range_succ, List.flatMap_append, ih, t.inOrder.filter_page_succ]
      simp
  rw [h, List.filter_eq_self]
  exact fun r hr => by simpa using t.inPages r hr

/-! ## Programs that only read -/

/-- Outside a transaction, `m` leaves the state and its outcome is a function of the tables. -/
def OnlyReads (m : Prog ε Database α) : Prop :=
  ∃ f : Tables → Except ε α, ∀ db, db.inTransaction = false → m db = (f db.tables, db)

namespace OnlyReads

theorem state_eq {m : Prog ε Database α} (h : OnlyReads m) {db : Database}
    (hout : db.inTransaction = false) : m db = ((m db).1, db) := by
  obtain ⟨f, hf⟩ := h
  rw [hf db hout]

/-- The outcome is the same where the tables are. -/
theorem outcome_eq {m : Prog ε Database α} (h : OnlyReads m) {db db' : Database}
    (hout : db.inTransaction = false) (hout' : db'.inTransaction = false)
    (htables : db'.tables = db.tables) : m db' = ((m db).1, db') := by
  obtain ⟨f, hf⟩ := h
  rw [hf db hout, hf db' hout', htables]

theorem pure (a : α) : OnlyReads (Pure.pure a : Prog ε Database α) := ⟨fun _ => .ok a, fun _ _ => rfl⟩

theorem stop (e : ε) : OnlyReads (Prog.stop e : Prog ε Database α) := ⟨fun _ => .error e, fun _ _ => rfl⟩

theorem bind {m : Prog ε Database α} {f : α → Prog ε Database β} (hm : OnlyReads m)
    (hf : ∀ a, OnlyReads (f a)) : OnlyReads (m >>= f) := by
  obtain ⟨r, hr⟩ := hm
  choose g hg using hf
  refine ⟨fun t => match r t with
    | .ok a => g a t
    | .error e => .error e, fun db hout => ?_⟩
  rw [Prog.bind_apply, hr db hout]
  cases h : r db.tables with
  | ok a => simp [h, hg a db hout]
  | error e => simp [h]

theorem withSource (command : String) {m : Prog QueryError Database α} (h : OnlyReads m) :
    OnlyReads (ScratchDb.withSource command m) := by
  obtain ⟨f, hf⟩ := h
  refine ⟨fun t => (f t).mapError fun e => { e with source := command }, fun db hout => ?_⟩
  rw [ScratchDb.withSource, hf db hout]
  cases h : f db.tables <;> simp [h, Except.mapError]

end OnlyReads

section Outside

variable {db : Database}

@[simp] theorem acquireTransactionLock_outside (hout : db.inTransaction = false) (name : String)
    (mode : TableLockMode) :
    (acquireTransactionLock name mode : Prog ε Database Bool) db = (.ok true, db) := by
  simp [acquireTransactionLock, Prog.bind_apply, hout]

theorem onlyReads_acquireTransactionLock (name : String) (mode : TableLockMode) :
    OnlyReads (acquireTransactionLock name mode : Prog ε Database Bool) :=
  ⟨fun _ => .ok true, fun _ hout => acquireTransactionLock_outside hout name mode⟩

@[simp] theorem tableExists_outside (hout : db.inTransaction = false) (name : String) :
    (tableExists name : Prog ε Database Bool) db = (.ok (db.tables name).isSome, db) := by
  rw [tableExists, Prog.bind_ok (acquireTransactionLock_outside hout name .shared)]
  simp [Prog.bind_apply]

@[simp] theorem loadSchema_outside (hout : db.inTransaction = false) (name : String) :
    (loadSchema name : Prog ε Database (Option Schema)) db =
      (.ok ((db.tables name).map StoredTable.schema), db) := by
  rw [loadSchema, Prog.bind_ok (acquireTransactionLock_outside hout name .shared)]
  simp [Prog.bind_apply]

theorem onlyReads_loadSchema (name : String) :
    OnlyReads (loadSchema name : Prog ε Database (Option Schema)) :=
  ⟨fun t => .ok ((t name).map StoredTable.schema), fun _ hout => loadSchema_outside hout name⟩

end Outside

/-! ## Scans that only read -/

section Scan

variable {body : α → TableRow → Prog ε Database (Bool × α)}

theorem onlyReads_scanList (h : ∀ a r, OnlyReads (body a r)) (a : α) (rows : List TableRow) :
    OnlyReads (scanList body a rows) := by
  induction rows generalizing a with
  | nil => exact .pure _
  | cons r rs ih =>
    refine (h a r).bind fun (go, a) => ?_
    cases go with
    | true => exact ih a
    | false => exact .pure _

/-- A scan of one list, then of another. -/
theorem scanList_append (a : α) (xs ys : List TableRow) :
    scanList body a (xs ++ ys) =
      scanList body a xs >>= fun (go, a) => if go then scanList body a ys else pure (false, a) := by
  induction xs generalizing a with
  | nil => rfl
  | cons x xs ih =>
    funext db
    rw [List.cons_append, scanList, scanList, Prog.bind_apply, Prog.bind_apply, Prog.bind_apply]
    rcases body a x db with ⟨e | ⟨go, a⟩, t⟩
    · rfl
    · cases go with
      | true => exact congrFun (ih a) t
      | false => rfl

section Start

variable {db : Database} (hout : db.inTransaction = false) (name : String) (a : α)
  {table : StoredTable} (htable : db.tables name = some table)
include hout htable

theorem scanRows_memory (hmode : table.schema.storageMode = .memory) :
    scanRows body name a db = scanList body a table.rows db := by
  rw [scanRows, Prog.bind_ok (acquireTransactionLock_outside hout name .shared)]
  simp only [not_true_eq_false, if_false]
  rw [Prog.bind_ok (Prog.get_apply db), htable]
  simp only [hmode]

theorem scanRows_disk (hmode : table.schema.storageMode = .disk) :
    scanRows body name a db = scanPages body name a (List.range table.pageCount) db := by
  rw [scanRows, Prog.bind_ok (acquireTransactionLock_outside hout name .shared)]
  simp only [not_true_eq_false, if_false]
  rw [Prog.bind_ok (Prog.get_apply db), htable]
  simp only [hmode]

/-- A scan that only reads is a scan of the rows. -/
theorem scanRows_outside (h : ∀ a r, OnlyReads (body a r)) :
    scanRows body name a db = scanList body a table.rows db := by
  rcases table.schema.memory_or_disk with hmode | hmode
  · exact scanRows_memory hout name a htable hmode
  · rw [scanRows_disk hout name a htable hmode, ← table.flatMap_pages]
    generalize List.range table.pageCount = pages
    induction pages generalizing a with
    | nil => rfl
    | cons p ps ih =>
      rw [scanPages, Prog.bind_ok (Prog.get_apply db), htable, List.flatMap_cons, scanList_append]
      dsimp only
      rw [Prog.bind_apply, Prog.bind_apply, (onlyReads_scanList h a _).state_eq hout]
      rcases (scanList body a _ db).1 with e | ⟨go, a⟩
      · rfl
      · cases go with
        | true => exact ih a
        | false => rfl

end Start

theorem scanRows_unknown (a : α) {db : Database} (hout : db.inTransaction = false) {name : String}
    (hnone : db.tables name = none) : scanRows body name a db = (.ok (false, a), db) := by
  rw [scanRows, Prog.bind_ok (acquireTransactionLock_outside hout name .shared)]
  simp only [not_true_eq_false, if_false]
  rw [Prog.bind_ok (Prog.get_apply db), hnone]
  rfl

theorem onlyReads_scanRows (h : ∀ a r, OnlyReads (body a r)) (name : String) (a : α) :
    OnlyReads (scanRows body name a) := by
  have hlist : ∀ rows, OnlyReads (scanList body a rows) := onlyReads_scanList h a
  choose f hf using hlist
  refine ⟨fun t => (t name).elim (.ok (false, a)) fun table => f table.rows t, fun db hout => ?_⟩
  cases htable : db.tables name with
  | none => simp [scanRows_unknown a hout htable, htable]
  | some table => simp [scanRows_outside hout name a htable h, hf _ db hout, htable]

end Scan

/-- The body of a search: stop at the first row that `p` holds of. -/
def searchBody (p : TableRow → Bool) : Bool → TableRow → Prog ε Database (Bool × Bool) :=
  fun _ row => Pure.pure (!p row, p row)

theorem scanList_searchBody (p : TableRow → Bool) (rows : List TableRow) :
    (scanList (searchBody p) false rows : Prog ε Database _) =
      Pure.pure (!rows.any p, rows.any p) := by
  induction rows with
  | nil => rfl
  | cons r rs ih =>
    funext db
    rw [scanList, List.any_cons, searchBody]
    cases hp : p r with
    | true => rfl
    | false => exact congrFun ih db

/-- What a search returns. -/
theorem scanRows_searchBody (p : TableRow → Bool) {db : Database}
    (hout : db.inTransaction = false) {name : String} {table : StoredTable}
    (htable : db.tables name = some table) :
    (scanRows (searchBody p) name false : Prog ε Database _) db =
      (.ok (!table.rows.any p, table.rows.any p), db) :=
  (scanRows_outside hout name false htable fun _ _ => .pure _).trans
    (congrFun (scanList_searchBody p table.rows) db)

/-! ## The checks of the constraints -/

section Constraints

variable (parser : ValueParser) (command name : String) (schema : Schema) (values : List Value)
  (ignore : Option RecordId)

/-- The rows that break a key: the others that agree with the new values. -/
def breaksKey (c : ConstraintDefinition) (row : TableRow) : Bool :=
  ignore ≠ some row.recordId && agreeOn schema c.columns row.values values

/-- The rows with a value in the referenced column. -/
def isReferenced (refIndex : Nat) (value : Value) (row : TableRow) : Bool :=
  (row.values[refIndex]?).any fun stored => Value.compareValues stored value = .eq

theorem keyCallback_eq (c : ConstraintDefinition) :
    keyCallback schema values ignore c = searchBody (breaksKey schema values ignore c) := by
  funext _ row
  rw [keyCallback, searchBody, breaksKey]
  by_cases hi : ignore = some row.recordId
  · simp [hi]
  · cases agreeOn schema c.columns row.values values <;> simp [hi]

theorem foreignKeyCallback_eq (refIndex : Nat) (value : Value) :
    foreignKeyCallback refIndex value = searchBody (isReferenced refIndex value) := by
  funext _ row
  rw [foreignKeyCallback, searchBody, isReferenced]
  cases hstored : row.values[refIndex]? with
  | none => rfl
  | some stored => by_cases he : Value.compareValues stored value = .eq <;> simp [he]

theorem onlyReads_rowSatisfiesKey (c : ConstraintDefinition) :
    OnlyReads (rowSatisfiesKey name schema values ignore c) := by
  rw [rowSatisfiesKey, keyCallback_eq]
  dsimp only
  split
  · exact .stop _
  · refine (onlyReads_scanRows (fun _ _ => .pure _) name false).bind fun (completed, found) => ?_
    dsimp only
    split
    · exact .stop _
    · exact .pure _

theorem onlyReads_rowSatisfiesForeignKey (c : ConstraintDefinition) :
    OnlyReads (rowSatisfiesForeignKey schema values c) := by
  rw [rowSatisfiesForeignKey]
  split
  case h_2 => exact .pure _
  case h_1 localName refTable refName _ _ _ =>
    dsimp only
    split
    · exact .pure _
    · split
      · exact .pure _
      · refine (onlyReads_loadSchema refTable).bind fun refSchema => ?_
        split
        · split
          · split
            · rw [foreignKeyCallback_eq]
              refine (onlyReads_scanRows (fun _ _ => .pure _) refTable false).bind fun r => ?_
              split
              · exact .pure _
              · exact .stop _
            · exact .stop _
          · exact .stop _
        · exact .stop _

theorem onlyReads_rowSatisfiesConstraint (c : ConstraintDefinition) :
    OnlyReads (rowSatisfiesConstraint parser name schema values ignore c) := by
  rw [rowSatisfiesConstraint]
  cases c.kind with
  | primaryKey => exact onlyReads_rowSatisfiesKey name schema values ignore c
  | unique => exact onlyReads_rowSatisfiesKey name schema values ignore c
  | foreignKey => exact onlyReads_rowSatisfiesForeignKey schema values c
  | check =>
    dsimp only
    split
    · exact .pure _
    · exact .stop _

theorem onlyReads_rowSatisfiesConstraints (cs : List ConstraintDefinition) :
    OnlyReads (rowSatisfiesConstraints parser name schema values ignore cs) := by
  induction cs with
  | nil => exact .pure _
  | cons c cs ih =>
    exact (onlyReads_rowSatisfiesConstraint parser name schema values ignore c).bind fun _ => ih

theorem onlyReads_rowSatisfiesSchemaConstraints :
    OnlyReads (rowSatisfiesSchemaConstraints parser command name schema values ignore) :=
  (onlyReads_rowSatisfiesConstraints parser name schema values ignore _).withSource command

end Constraints

end ScratchDb
