import ScratchDb.Query.Writes

/-!
# Statements that fail outside a transaction

A statement that changes rows is a loop, each turn of which is a storage
transaction of its own. So a statement that returns an error has left every
row as it was exactly when no turn before the error changed one.
-/

namespace ScratchDb

open Database

variable {α β ι : Type}

/-! ## Loops that stop, pass or write -/

/-- What one turn of a statement's loop does: it stops with an error, it leaves the rows and goes
on with the answers that are left, or it changes the rows. -/
inductive Turn where
  | stops
  | passes (answers : List Answer)
  | writes
deriving DecidableEq

/-- A turn that passes is followed by the next. -/
def Turn.andThen (t : Turn) (next : List Answer → Turn) : Turn :=
  match t with
  | .stops => .stops
  | .passes answers => next answers
  | .writes => .writes

@[simp] theorem Turn.andThen_passes (t : Turn) : t.andThen .passes = t := by
  cases t <;> rfl

theorem Turn.andThen_assoc (t : Turn) (f g : List Answer → Turn) :
    (t.andThen f).andThen g = t.andThen fun answers => (f answers).andThen g := by
  cases t <;> rfl

/-- The first turn that does not pass decides. -/
def loopTurn (turn : ι → List Answer → Turn) : List ι → List Answer → Turn
  | [], answers => .passes answers
  | x :: xs, answers => (turn x answers).andThen (loopTurn turn xs)

theorem loopTurn_append (turn : ι → List Answer → Turn) (xs ys : List ι) (answers : List Answer) :
    loopTurn turn (xs ++ ys) answers = (loopTurn turn xs answers).andThen (loopTurn turn ys) := by
  induction xs generalizing answers with
  | nil => rfl
  | cons x xs ih =>
    rw [List.cons_append, loopTurn, loopTurn, Turn.andThen_assoc]
    exact congrArg _ (funext ih)

/-- `m`, started in `db`, does what a turn says: `goesOn` tells whether the loop goes on after it,
and `touched` holds of the states in which rows have changed. -/
def Does (touched : Database → Prop) (goesOn : α → Bool) (m : Prog QueryError Database α)
    (db : Database) : Turn → Prop
  | .stops => ∃ e t, m db = (.error e, t) ∧ t.tables = db.tables
  | .passes answers => ∃ a t, m db = (.ok a, t) ∧ goesOn a = true ∧ t.inTransaction = false ∧
      t.tables = db.tables ∧ t.answers = answers
  | .writes => touched (m db).2

/-- A touched state stays touched. -/
def KeepsTouched (touched : Database → Prop) (m : Prog QueryError Database α) : Prop :=
  Prog.Keeps (fun s t => touched s → touched t) m

section Loop

variable {touched : Database → Prop}

theorem KeepsTouched.pure (a : α) : KeepsTouched touched (Pure.pure a) := fun _ h => h

theorem KeepsTouched.stop (e : QueryError) :
    KeepsTouched touched (Prog.stop e : Prog QueryError Database α) := fun _ h => h

theorem KeepsTouched.bind {m : Prog QueryError Database α} {f : α → Prog QueryError Database β}
    (hm : KeepsTouched touched m) (hf : ∀ a, KeepsTouched touched (f a)) :
    KeepsTouched touched (m >>= f) :=
  Prog.keeps_bind (fun _ _ _ hab hbc h => hbc (hab h)) hm hf

theorem KeepsTouched.withSource (command : String) {m : Prog QueryError Database α}
    (hm : KeepsTouched touched m) : KeepsTouched touched (ScratchDb.withSource command m) := by
  intro db hdb
  have h := hm db hdb
  unfold ScratchDb.withSource
  rcases hr : m db with ⟨e | a, t⟩ <;> simpa [hr] using h

theorem KeepsTouched.of_onlyReads (hout : ∀ db, touched db → db.inTransaction = false)
    {m : Prog QueryError Database α} (hm : OnlyReads m) : KeepsTouched touched m := by
  intro db hdb
  rw [hm.state_eq (hout db hdb)]
  exact hdb

theorem orStop_ok_bind (a : α) (f : α → Prog QueryError Database β) :
    orStop (.ok a) >>= f = f a := rfl

theorem KeepsTouched.orStop (r : Except QueryError α) :
    KeepsTouched touched (ScratchDb.orStop r) := by
  cases r <;> exact fun _ h => h

theorem Does.congr {goesOn : α → Bool} {m m' : Prog QueryError Database α} {db : Database}
    {turn : Turn} (h : Does touched goesOn m db turn) (heq : m' db = m db) :
    Does touched goesOn m' db turn := by
  cases turn <;> simpa only [Does, heq] using h

/-- A first part that only reads decides how the turn goes on. -/
theorem does_bind_of_onlyReads {goesOn : β → Bool} {m : Prog QueryError Database α}
    {f : α → Prog QueryError Database β} {db : Database} {turn : Turn} (hm : OnlyReads m)
    (hout : db.inTransaction = false)
    (h : match (m db).1 with
      | .ok a => Does touched goesOn (f a) db turn
      | .error _ => turn = .stops) : Does touched goesOn (m >>= f) db turn := by
  have hstate := hm.state_eq hout
  rcases hr : (m db).1 with e | a
  · simp only [hr] at h hstate
    rw [h]
    exact ⟨e, db, Prog.bind_error hstate, rfl⟩
  · simp only [hr] at h hstate
    exact h.congr (Prog.bind_ok hstate)

theorem Does.withSource (command : String) {goesOn : α → Bool} {m : Prog QueryError Database α}
    {db : Database} {turn : Turn} (h : Does touched goesOn m db turn) :
    Does touched goesOn (ScratchDb.withSource command m) db turn := by
  cases turn with
  | stops =>
    obtain ⟨e, t, happly, hsame⟩ := h
    exact ⟨{ e with source := command }, t, by simp [ScratchDb.withSource, happly], hsame⟩
  | passes answers =>
    obtain ⟨a, t, happly, hrest⟩ := h
    exact ⟨a, t, by simp [ScratchDb.withSource, happly], hrest⟩
  | writes =>
    unfold Does ScratchDb.withSource
    rcases hr : m db with ⟨e | a, t⟩ <;> simpa [Does, hr] using h

/-- One part after another. -/
theorem does_bind {goesOn : α → Bool} {goesOn' : β → Bool} {m : Prog QueryError Database α}
    {f : α → Prog QueryError Database β} {db : Database} {turn : Turn}
    {next : List Answer → Turn} (hm : Does touched goesOn m db turn)
    (hkeeps : ∀ a, KeepsTouched touched (f a))
    (hf : ∀ a t, goesOn a = true → t.inTransaction = false → t.tables = db.tables →
      Does touched goesOn' (f a) t (next t.answers)) :
    Does touched goesOn' (m >>= f) db (turn.andThen next) := by
  cases turn with
  | stops =>
    obtain ⟨e, t, happly, hsame⟩ := hm
    exact ⟨e, t, Prog.bind_error happly, hsame⟩
  | passes answers =>
    obtain ⟨a, t, happly, hgo, hout, hsame, rfl⟩ := hm
    have hrest := hf a t hgo hout hsame
    have heq : (m >>= f) db = f a t := Prog.bind_ok happly
    rw [Turn.andThen]
    cases hnext : next t.answers with
    | stops =>
      rw [hnext] at hrest
      obtain ⟨e, u, happly, hsame'⟩ := hrest
      exact ⟨e, u, heq.trans happly, hsame'.trans hsame⟩
    | passes answers =>
      rw [hnext] at hrest
      obtain ⟨b, u, happly, hgo, hout, hsame', hanswers⟩ := hrest
      exact ⟨b, u, heq.trans happly, hgo, hout, hsame'.trans hsame, hanswers⟩
    | writes =>
      rw [hnext] at hrest
      rw [Does, heq]
      exact hrest
  | writes =>
    rw [Turn.andThen, Does, Prog.bind_apply]
    rcases hr : m db with ⟨e | a, t⟩
    · simpa [Does, hr] using hm
    · exact hkeeps a t (by simpa [Does, hr] using hm)

/-- A last part that only returns. -/
theorem Does.last {goesOn : α → Bool} {goesOn' : β → Bool} {m : Prog QueryError Database α}
    {f : α → Prog QueryError Database β} {db : Database} {turn : Turn}
    (hm : Does touched goesOn m db turn) (hkeeps : ∀ a, KeepsTouched touched (f a))
    (hf : ∀ a, goesOn a = true → ∃ b, goesOn' b = true ∧ f a = Pure.pure b) :
    Does touched goesOn' (m >>= f) db turn := by
  rw [← Turn.andThen_passes turn]
  refine does_bind hm hkeeps fun a t hgo hout _ => ?_
  obtain ⟨b, hgo', hb⟩ := hf a hgo
  exact ⟨b, t, by rw [hb]; rfl, hgo', hout, rfl, rfl⟩

end Loop

section Scan

variable {touched : Database → Prop} {tables : Tables}
  {body : α → TableRow → Prog QueryError Database (Bool × α)} {turn : TableRow → List Answer → Turn}

theorem keepsTouched_scanList (h : ∀ a r, KeepsTouched touched (body a r)) (a : α)
    (rows : List TableRow) : KeepsTouched touched (scanList body a rows) :=
  keeps_scanList (fun _ h => h) (fun _ _ _ hab hbc h => hbc (hab h)) h a rows

theorem keepsTouched_scanPages (h : ∀ a r, KeepsTouched touched (body a r)) (name : String) (a : α)
    (pages : List Nat) : KeepsTouched touched (scanPages body name a pages) :=
  keeps_scanPages (fun _ h => h) (fun _ _ _ hab hbc h => hbc (hab h)) h name a pages

variable (hkeeps : ∀ a r, KeepsTouched touched (body a r))
include hkeeps

/-- The turns of a scan follow the turns of its rows. -/
theorem does_scanList (a : α) (rows : List TableRow)
    (hbody : ∀ a, ∀ r ∈ rows, ∀ db, db.inTransaction = false → db.tables = tables →
      Does touched Prod.fst (body a r) db (turn r db.answers))
    {db : Database} (hout : db.inTransaction = false) (htables : db.tables = tables) :
    Does touched Prod.fst (scanList body a rows) db (loopTurn turn rows db.answers) := by
  induction rows generalizing a db with
  | nil => exact ⟨_, db, rfl, rfl, hout, rfl, rfl⟩
  | cons r rs ih =>
    refine does_bind (hbody a r List.mem_cons_self db hout htables) ?_ ?_
    · rintro ⟨_ | _, b⟩
      · exact .pure _
      · exact keepsTouched_scanList hkeeps b rs
    · rintro ⟨go, b⟩ t rfl hout' hsame
      exact ih b (fun a x hx => hbody a x (List.mem_cons_of_mem r hx)) hout' (hsame.trans htables)

variable (name : String) {table : StoredTable}
  (hbody : ∀ a, ∀ r ∈ table.rows, ∀ db, db.inTransaction = false → db.tables = tables →
    Does touched Prod.fst (body a r) db (turn r db.answers))
  (htable : tables name = some table)
include hbody htable

theorem does_scanPages (a : α) (pages : List Nat) {db : Database}
    (hout : db.inTransaction = false) (htables : db.tables = tables) :
    Does touched Prod.fst (scanPages body name a pages) db
      (loopTurn turn (pages.flatMap fun p => table.rows.filter fun r => r.recordId.pageId = p)
        db.answers) := by
  induction pages generalizing a db with
  | nil => exact ⟨_, db, rfl, rfl, hout, rfl, rfl⟩
  | cons p ps ih =>
    rw [List.flatMap_cons, loopTurn_append]
    have heq : scanPages body name a (p :: ps) db =
        (scanList body a (table.rows.filter fun r => r.recordId.pageId = p) >>= fun r =>
          if r.1 then scanPages body name r.2 ps else Pure.pure (false, r.2)) db := by
      rw [scanPages, Prog.bind_ok (Prog.get_apply db), htables, htable]
    have hpage := does_scanList hkeeps a (table.rows.filter fun r => r.recordId.pageId = p)
      (fun a r hr => hbody a r (List.mem_filter.mp hr).1) hout htables
    refine Does.congr (does_bind hpage ?_ ?_) heq
    · rintro ⟨_ | _, b⟩
      · exact .pure _
      · exact keepsTouched_scanPages hkeeps name b ps
    · rintro ⟨go, b⟩ t rfl hout' hsame
      exact ih b hout' (hsame.trans htables)

/-- A scan of a table follows the turns of its rows. -/
theorem does_scanRows (a : α) {db : Database} (hout : db.inTransaction = false)
    (htables : db.tables = tables) :
    Does touched Prod.fst (scanRows body name a) db (loopTurn turn table.rows db.answers) := by
  have htable' : db.tables name = some table := by rw [htables, htable]
  rcases table.schema.memory_or_disk with hmode | hmode
  · exact (does_scanList hkeeps a _ hbody hout htables).congr
      (scanRows_memory hout name a htable' hmode)
  · have h := does_scanPages hkeeps name hbody htable a (List.range table.pageCount) hout htables
    rw [table.flatMap_pages] at h
    exact h.congr (scanRows_disk hout name a htable' hmode)

end Scan

/-! ## The turns of the statements -/

section Turns

variable (parser : ValueParser) (command name : String) (db : Database) (table : StoredTable)

/-- An `INSERT` stops at the first row that it does not insert. -/
def insertTurn (row : Except QueryError (List Value)) (answers : List Answer) : Turn :=
  match row with
  | .error _ => .stops
  | .ok values =>
    match (rowSatisfiesSchemaConstraints parser command name table.schema values none db).1 with
    | .error _ => .stops
    | .ok _ => if (insertPlace table values answers).isSome then .writes else .stops

/-- A `DELETE` stops at a row that its condition cannot be computed for. -/
def deleteTurn (condition : Option QueryCondition) (row : TableRow) (answers : List Answer) :
    Turn :=
  match matchesWhere parser table.schema row condition with
  | .error _ => .stops
  | .ok false => .passes answers
  | .ok true =>
    if deletes table row.recordId answers then .writes
    else .passes (answersLeft table answers)

/-- An `UPDATE` stops at a row with new values that cannot be computed or break a constraint. A row
may be given the values that it has. -/
def updateTurn (condition : Option QueryCondition)
    (newValues : List Value → Except QueryError (List Value)) (row : TableRow)
    (answers : List Answer) : Turn :=
  match matchesWhere parser table.schema row condition with
  | .error _ => .stops
  | .ok false => .passes answers
  | .ok true =>
    match newValues row.values with
    | .error _ => .stops
    | .ok values =>
      match (rowSatisfiesSchemaConstraints parser command name table.schema values
          (some row.recordId) db).1 with
      | .error _ => .stops
      | .ok _ =>
        if table.schema.accepts values then
          match next answers with
          | .done _ =>
            if table.stored values = row.values then .passes answers.tail else .writes
          | .failed .. => .passes answers.tail
        else .passes answers

end Turns

/-! ## Rows that have changed -/

/-- Outside a transaction, the table has a property. -/
def Touched (name : String) (p : StoredTable → Prop) (db : Database) : Prop :=
  db.inTransaction = false ∧ ∃ table, db.tables name = some table ∧ p table

section Touched

variable {name : String} {p : StoredTable → Prop}

theorem Touched.wrote_none {db t : Database} (h : Touched name p db) (hw : Wrote db t none) :
    Touched name p t := by
  obtain ⟨-, table, htable, hp⟩ := h
  exact ⟨hw.outside, table, by rw [hw.tables]; exact htable, hp⟩

theorem Touched.onlyReads {α : Type} {m : Prog QueryError Database α} (hm : OnlyReads m) :
    KeepsTouched (Touched name p) m :=
  .of_onlyReads (fun _ h => h.1) hm

theorem keepsTouched_insertRow (values : List Value)
    (hp : ∀ table id, table.find id = none → p table → p (table.insert id values)) :
    KeepsTouched (Touched name p) (insertRow name values) := by
  intro db h
  obtain ⟨t, happly, hw⟩ := insertRow_outside (ε := QueryError) h.1 name values
  obtain ⟨hout, table, htable, htouched⟩ := h
  rw [happly]
  rw [htable, Option.bind_some] at hw
  cases hplace : insertPlace table values db.answers with
  | none =>
    rw [hplace] at hw
    exact Touched.wrote_none ⟨hout, table, htable, htouched⟩ hw
  | some id =>
    rw [hplace] at hw
    refine ⟨hw.outside, table.insert id values, ?_, hp table id (insertPlace_eq_some hplace) htouched⟩
    simp [hw.tables, Change.apply, htable]

theorem keepsTouched_deleteRow (id : RecordId) (hp : ∀ table, p table → p (table.remove id)) :
    KeepsTouched (Touched name p) (deleteRow name id) := by
  intro db h
  obtain ⟨t, happly, hw, -⟩ := deleteRow_outside (ε := QueryError) h.1 name id
  obtain ⟨hout, table, htable, htouched⟩ := h
  rw [happly]
  rw [htable, Option.any_some] at hw
  cases hdel : deletes table id db.answers with
  | false =>
    rw [hdel] at hw
    exact Touched.wrote_none ⟨hout, table, htable, htouched⟩ hw
  | true =>
    rw [hdel] at hw
    refine ⟨hw.outside, table.remove id, ?_, hp table htouched⟩
    simp [hw.tables, Change.apply, htable]

theorem keepsTouched_updateRow (id : RecordId) (values : List Value)
    (hp : ∀ table newId, p table → p ((table.remove id).insert newId values)) :
    KeepsTouched (Touched name p) (updateRow name id values) := by
  intro db h
  obtain ⟨t, happly, hw, -⟩ := updateRow_outside (ε := QueryError) h.1 name id values
  obtain ⟨hout, table, htable, htouched⟩ := h
  rw [happly]
  rw [htable, Option.bind_some] at hw
  cases hplace : updatePlace table id values db.answers with
  | none =>
    rw [hplace] at hw
    exact Touched.wrote_none ⟨hout, table, htable, htouched⟩ hw
  | some newId =>
    rw [hplace] at hw
    refine ⟨hw.outside, (table.remove id).insert newId values, ?_, hp table newId htouched⟩
    simp [hw.tables, Change.apply, htable]

end Touched

/-! ## The loops follow their turns -/

section Bodies

variable {parser : ValueParser} {command name : String} {db t : Database} {table : StoredTable}
  (hout : db.inTransaction = false) (htable : db.tables name = some table)
  (hout' : t.inTransaction = false) (htables : t.tables = db.tables)

/-- The table has more rows than before. -/
def hasGrown (table u : StoredTable) : Prop := table.rows.length < u.rows.length

theorem length_insert {u : StoredTable} {id : RecordId} (hfree : u.find id = none)
    (values : List Value) : (u.insert id values).rows.length = u.rows.length + 1 := by
  have hrows : (u.remove id).rows = u.rows := by
    rw [StoredTable.remove_rows, List.filter_eq_self]
    simpa using StoredTable.find_eq_none hfree
  rw [StoredTable.insert_rows, (insertRowSorted_perm _ _).length_eq, List.length_cons, hrows]

theorem keepsTouched_insertChecked (schema : Schema) (row : Except QueryError (List Value)) :
    KeepsTouched (Touched name (hasGrown table))
      (insertChecked parser command name schema row) := by
  unfold insertChecked
  cases row with
  | error e => exact .stop e
  | ok values =>
    refine (Touched.onlyReads
      (onlyReads_rowSatisfiesSchemaConstraints parser command name schema values none)).bind
      fun _ => ?_
    refine (keepsTouched_insertRow values fun u id hfree hu => ?_).bind fun r => ?_
    · rw [hasGrown, length_insert hfree]
      exact Nat.lt_succ_of_lt hu
    · cases r with
      | none => exact .stop _
      | some id => exact .pure _

/-- The table has fewer rows than before. -/
def hasShrunk (table u : StoredTable) : Prop := u.rows.length < table.rows.length

theorem length_remove_le (u : StoredTable) (id : RecordId) :
    (u.remove id).rows.length ≤ u.rows.length := List.length_filter_le _ _

theorem length_remove_lt {u : StoredTable} {r : TableRow} (hr : r ∈ u.rows) :
    (u.remove r.recordId).rows.length < u.rows.length :=
  List.length_filter_lt_length_iff_exists.mpr ⟨r, hr, by simp⟩

theorem countP_remove_lt {u : StoredTable} {r : TableRow} (hr : r ∈ u.rows)
    {p : TableRow → Bool} (hp : p r = true) :
    (u.remove r.recordId).rows.countP p < u.rows.countP p := by
  rw [StoredTable.remove_rows, List.countP_eq_length_filter, List.countP_eq_length_filter,
    List.filter_comm]
  exact List.length_filter_lt_length_iff_exists.mpr ⟨r, List.mem_filter.mpr ⟨hr, hp⟩, by simp⟩

/-- The row has not the values that an `UPDATE` gives it. -/
def unsettled (table : StoredTable) (newValues : List Value → Except QueryError (List Value))
    (r : TableRow) : Bool :=
  match newValues r.values with
  | .ok values => table.stored values ≠ r.values
  | .error _ => false

/-- The table has fewer rows than before that an `UPDATE` would change. -/
def hasSettled (table : StoredTable) (newValues : List Value → Except QueryError (List Value))
    (u : StoredTable) : Prop :=
  u.schema = table.schema ∧
    u.rows.countP (unsettled table newValues) < table.rows.countP (unsettled table newValues)

/-- A second update to the same values changes nothing. -/
def Settles (table : StoredTable) (newValues : List Value → Except QueryError (List Value)) :
    Prop :=
  ∀ old values, newValues old = .ok values →
    ∀ again, newValues (table.stored values) = .ok again → table.stored again = table.stored values

theorem not_unsettled {newValues : List Value → Except QueryError (List Value)}
    (hsettles : Settles table newValues) {old values : List Value}
    (hnew : newValues old = .ok values) (id : RecordId) :
    unsettled table newValues ⟨id, table.stored values⟩ = false := by
  rw [unsettled]
  split
  · rename_i again hagain
    simpa using hsettles old values hnew again hagain
  · rfl

/-- An update takes away the unsettled row in its place, and adds none. -/
theorem countP_update_le {newValues : List Value → Except QueryError (List Value)}
    (hsettles : Settles table newValues) {old values : List Value}
    (hnew : newValues old = .ok values) {u : StoredTable} (hschema : u.schema = table.schema)
    (id newId : RecordId) :
    ((u.remove id).insert newId values).rows.countP (unsettled table newValues) ≤
      (u.remove id).rows.countP (unsettled table newValues) := by
  rw [StoredTable.insert_rows, (insertRowSorted_perm _ _).countP_eq, List.countP_cons,
    StoredTable.stored_congr (t := table) (u := u.remove id) hschema, not_unsettled hsettles hnew,
    StoredTable.remove_rows (u.remove id) newId]
  simpa using List.filter_sublist.countP_le

theorem keepsTouched_deleteCallback (schema : Schema) (condition : Option QueryCondition)
    (count : Nat) (row : TableRow) :
    KeepsTouched (Touched name (hasShrunk table))
      (deleteCallback parser name schema condition count row) := by
  refine (KeepsTouched.orStop _).bind fun matched => ?_
  cases matched with
  | false => exact .pure _
  | true =>
    refine (keepsTouched_deleteRow row.recordId fun u hu => ?_).bind fun deleted => ?_
    · exact Nat.lt_of_le_of_lt (length_remove_le u _) hu
    · cases deleted <;> exact .pure _

theorem keepsTouched_updateCallback {newValues : List Value → Except QueryError (List Value)}
    (hsettles : Settles table newValues) (condition : Option QueryCondition) (count : Nat)
    (row : TableRow) :
    KeepsTouched (Touched name (hasSettled table newValues))
      (updateCallback parser command name table.schema condition newValues count row) := by
  refine (KeepsTouched.orStop _).bind fun matched => ?_
  cases matched with
  | false => exact .pure _
  | true =>
    cases hnew : newValues row.values with
    | error e => exact .stop e
    | ok values =>
      simp only [if_true, orStop_ok_bind]
      refine (Touched.onlyReads
        (onlyReads_rowSatisfiesSchemaConstraints parser command name table.schema values _)).bind
        fun _ => (keepsTouched_updateRow row.recordId values ?_).bind fun updated => ?_
      · rintro u newId ⟨hschema, hcount⟩
        have hle := countP_update_le hsettles hnew hschema row.recordId newId
        have hremove : (u.remove row.recordId).rows.countP (unsettled table newValues) ≤
            u.rows.countP (unsettled table newValues) := List.filter_sublist.countP_le
        exact ⟨hschema, by omega⟩
      · cases updated <;> exact .pure _

include hout htable hout' htables

theorem does_insertChecked (row : Except QueryError (List Value)) :
    Does (Touched name (hasGrown table)) (fun _ => true)
      (insertChecked parser command name table.schema row) t
      (insertTurn parser command name db table row t.answers) := by
  unfold insertChecked insertTurn
  cases row with
  | error e => exact ⟨e, t, rfl, rfl⟩
  | ok values =>
    have hreads := onlyReads_rowSatisfiesSchemaConstraints parser command name table.schema values
      none
    refine does_bind_of_onlyReads hreads hout' ?_
    rw [hreads.outcome_eq hout hout' htables]
    cases hcheck :
        (rowSatisfiesSchemaConstraints parser command name table.schema values none db).1 with
    | error e => simp only [hcheck]
    | ok _ =>
      simp only [hcheck]
      obtain ⟨u, happly, hw⟩ := insertRow_outside (ε := QueryError) hout' name values
      rw [htables, htable, Option.bind_some] at happly hw
      cases hplace : insertPlace table values t.answers with
      | none =>
        rw [hplace] at happly hw
        exact ⟨_, u, Prog.bind_ok happly, hw.tables⟩
      | some id =>
        rw [hplace] at happly hw
        have hu : Touched name (hasGrown table) u :=
          ⟨hw.outside, table.insert id values, by simp [hw.tables, Change.apply, htables, htable],
            by rw [hasGrown, length_insert (insertPlace_eq_some hplace)]; exact Nat.lt_succ_self _⟩
        rw [Option.isSome_some, if_pos rfl, Does, Prog.bind_ok happly]
        exact hu

omit hout in
theorem does_deleteCallback (condition : Option QueryCondition) (count : Nat) {row : TableRow}
    (hrow : row ∈ table.rows) :
    Does (Touched name (hasShrunk table)) (fun _ => true)
      (deleteCallback parser name table.schema condition count row) t
      (deleteTurn parser table condition row t.answers) := by
  unfold deleteCallback deleteTurn
  rcases matchesWhere parser table.schema row condition with e | _ | _
  · exact ⟨e, t, rfl, rfl⟩
  · exact ⟨count, t, rfl, rfl, hout', rfl, rfl⟩
  · simp only [orStop_ok_bind, if_true]
    obtain ⟨u, happly, hw, hanswers⟩ := deleteRow_outside (ε := QueryError) hout' name row.recordId
    rw [htables, htable, Option.any_some] at happly hw
    have hleft := hanswers table (by rw [htables, htable])
      (by rw [StoredTable.find_of_mem hrow, Option.isSome_some])
    cases hdel : deletes table row.recordId t.answers with
    | false =>
      rw [hdel] at happly hw
      exact ⟨count, u, Prog.bind_ok happly, rfl, hw.outside, hw.tables, hleft⟩
    | true =>
      rw [hdel] at happly hw
      have hu : Touched name (hasShrunk table) u :=
        ⟨hw.outside, table.remove row.recordId,
          by simp [hw.tables, Change.apply, htables, htable], length_remove_lt hrow⟩
      rw [if_pos rfl, Does, Prog.bind_ok happly]
      exact hu

theorem does_updateCallback {newValues : List Value → Except QueryError (List Value)}
    (hsettles : Settles table newValues) (condition : Option QueryCondition) (count : Nat)
    {row : TableRow} (hrow : row ∈ table.rows) :
    Does (Touched name (hasSettled table newValues)) (fun _ => true)
      (updateCallback parser command name table.schema condition newValues count row) t
      (updateTurn parser command name db table condition newValues row t.answers) := by
  unfold updateCallback updateTurn
  rcases matchesWhere parser table.schema row condition with e | _ | _
  · exact ⟨e, t, rfl, rfl⟩
  · exact ⟨count, t, rfl, rfl, hout', rfl, rfl⟩
  simp only [orStop_ok_bind, if_true]
  cases hnew : newValues row.values with
  | error e => exact ⟨e, t, rfl, rfl⟩
  | ok values =>
    rw [orStop_ok_bind]
    have hreads := onlyReads_rowSatisfiesSchemaConstraints parser command name table.schema values
      (some row.recordId)
    refine does_bind_of_onlyReads hreads hout' ?_
    rw [hreads.outcome_eq hout hout' htables]
    cases hcheck : (rowSatisfiesSchemaConstraints parser command name table.schema values
        (some row.recordId) db).1 with
    | error e => simp only [hcheck]
    | ok _ =>
      simp only [hcheck]
      obtain ⟨u, happly, hw, hanswers⟩ :=
        updateRow_outside (ε := QueryError) hout' name row.recordId values
      have hfind := StoredTable.find_of_mem hrow
      rw [htables, htable, Option.bind_some] at happly hw
      have hleft := hanswers table (by rw [htables, htable]) (by rw [hfind, Option.isSome_some])
      cases haccepts : table.schema.accepts values with
      | false =>
        simp only [updatePlace, haccepts] at happly hw hleft
        exact ⟨count, u, Prog.bind_ok happly, rfl, hw.outside, hw.tables, hleft⟩
      | true =>
        simp only [updatePlace, haccepts, if_true, hfind, Option.bind_some] at happly hw hleft
        cases hnext : next t.answers with
        | failed stays id =>
          simp only [hnext] at happly hw
          exact ⟨count, u, Prog.bind_ok happly, rfl, hw.outside, hw.tables, hleft⟩
        | done newId =>
          simp only [hnext] at happly hw
          by_cases hsame : table.stored values = row.values
          · -- the row stays in its place with its values
            have hplace : updateRow.newPlace table row values newId = row.recordId := by
              simp [updateRow.newPlace, hsame]
            rw [hplace] at happly hw
            have htables' : u.tables = t.tables := by
              have hstay := StoredTable.insert_remove_self hfind hsame
              simp [hw.tables, Change.apply, htables, htable, hstay]
            simp only [hsame, if_true]
            exact ⟨count + 1, u, Prog.bind_ok happly, rfl, hw.outside, htables', hleft⟩
          · have hu : Touched name (hasSettled table newValues) u := by
              refine ⟨hw.outside, (table.remove row.recordId).insert
                (updateRow.newPlace table row values newId) values,
                by simp [hw.tables, Change.apply, htables, htable], rfl, ?_⟩
              refine Nat.lt_of_le_of_lt (countP_update_le hsettles hnew rfl _ _) ?_
              exact countP_remove_lt hrow (by simp [unsettled, hnew, hsame])
            simp only [hsame, if_true, if_false, Does]
            rw [Prog.bind_ok happly]
            exact hu

theorem does_insertLoop (rows : List (Except QueryError (List Value))) :
    Does (Touched name (hasGrown table)) (fun _ => true)
      (insertLoop parser command name table.schema rows) t
      (loopTurn (insertTurn parser command name db table) rows t.answers) := by
  induction rows generalizing t with
  | nil => exact ⟨(), t, rfl, rfl, hout', rfl, rfl⟩
  | cons row rows ih =>
    refine does_bind (does_insertChecked hout htable hout' htables row) (fun _ => ?_) ?_
    · clear ih
      induction rows with
      | nil => exact .pure _
      | cons row rows ih => exact (keepsTouched_insertChecked table.schema row).bind fun _ => ih
    · intro _ u _ houtu hsame
      exact ih houtu (hsame.trans htables)

end Bodies

/-! ## Assignments -/

/-- The assignments of an `UPDATE`, each to the place of its column. -/
def setAll (sets : List (Nat × Value)) (values : List Value) : List Value :=
  sets.foldl (fun values s => values.set s.1 s.2) values

theorem set_setAll_set (sets : List (Nat × Value)) (values : List Value) (i : Nat) (v w : Value) :
    (setAll sets (values.set i v)).set i w = (setAll sets values).set i w := by
  induction sets generalizing values with
  | nil => exact List.set_set v
  | cons s sets ih =>
    rw [setAll, List.foldl_cons, setAll, List.foldl_cons]
    by_cases hi : i = s.1
    · subst hi
      rw [List.set_set]
    · rw [List.set_comm _ _ hi]
      exact ih (values.set s.1 s.2)

theorem setAll_setAll (sets : List (Nat × Value)) (values : List Value) :
    setAll sets (setAll sets values) = setAll sets values := by
  induction sets using List.reverseRecOn with
  | nil => rfl
  | append_singleton sets s ih =>
    have hlast : ∀ values, setAll (sets ++ [s]) values = (setAll sets values).set s.1 s.2 :=
      fun values => by rw [setAll, List.foldl_append]; rfl
    rw [hlast, hlast, set_setAll_set, ih]

theorem map_setAll (f : Value → Value) (sets : List (Nat × Value)) (values : List Value) :
    (setAll sets values).map f = setAll (sets.map fun s => (s.1, f s.2)) (values.map f) := by
  induction sets generalizing values with
  | nil => rfl
  | cons s sets ih => simpa [setAll, List.map_set] using ih (values.set s.1 s.2)

theorem settles_setAll (table : StoredTable) (sets : List (Nat × Value)) (values : List Value) :
    table.stored (setAll sets (table.stored (setAll sets values))) =
      table.stored (setAll sets values) := by
  have hpadded : ∀ l : List Value, (l.map Value.padded).map Value.padded = l.map Value.padded := by
    simp
  unfold StoredTable.stored
  cases table.schema.storageMode with
  | memory => exact setAll_setAll sets values
  | disk =>
    dsimp only
    rw [map_setAll, hpadded, map_setAll, setAll_setAll]

/-- Whether the assignments can be computed does not depend on the row. -/
theorem assignValues_eq (parser : ValueParser) (command : String) (schema : Schema)
    (assignments : List (String × String)) :
    (∃ e, ∀ values, assignValues parser command schema assignments values = .error e) ∨
      ∃ sets, ∀ values, assignValues parser command schema assignments values =
        .ok (setAll sets values) := by
  induction assignments with
  | nil => exact .inr ⟨[], fun _ => rfl⟩
  | cons a assignments ih =>
    obtain ⟨name, text⟩ := a
    simp only [assignValues]
    cases schema.columnIndex name with
    | none => exact .inl ⟨_, fun _ => rfl⟩
    | some i =>
      cases schema.findColumn name with
      | none => exact .inl ⟨_, fun _ => rfl⟩
      | some column =>
        dsimp only
        cases parser.parseValue column text (tokenPosition command text) with
        | error e => exact .inl ⟨_, fun _ => rfl⟩
        | ok value =>
          rcases ih with ⟨e, he⟩ | ⟨sets, hsets⟩
          · exact .inl ⟨e, fun values => he _⟩
          · exact .inr ⟨(i, value) :: sets, fun values => hsets _⟩

theorem settles_assignValues (parser : ValueParser) (command : String) (table : StoredTable)
    (assignments : List (String × String)) :
    Settles table (assignValues parser command table.schema assignments) := by
  intro old values hvalues again hagain
  rcases assignValues_eq parser command table.schema assignments with ⟨e, he⟩ | ⟨sets, hsets⟩
  · rw [he] at hvalues
    cases hvalues
  · rw [hsets, Except.ok.injEq] at hvalues hagain
    subst hvalues hagain
    exact settles_setAll table sets old

/-! ## Statements -/

/-- The rows of a table, if there is such a table. -/
def Database.rows (db : Database) (name : String) : Option (List TableRow) :=
  (db.tables name).map StoredTable.rows

namespace Statement

/-- The statements that change rows. -/
def changesRows : Statement → Bool
  | .insert .. | .insertSelect .. | .update .. | .updateAssign .. | .delete .. => true
  | _ => false

/-- The table that a statement changes. -/
def tableName : Statement → String
  | .insert name .. | .insertSelect name .. | .update name .. | .updateAssign name .. => name
  | .delete name .. | .dropTable name | .addConstraint name .. | .dropConstraint name .. => name
  | .createIndex name .. | .dropIndex name .. => name
  | .createTable parts _ => parts.tableName

/-- How the loop of a statement on a table ends. -/
def turn (parser : ValueParser) (command : String) (db : Database) (table : StoredTable) :
    Statement → Turn
  | .insert name columns rows =>
    if rows = [] then .stops
    else
      loopTurn (insertTurn parser command name db table)
        (rows.map (rowOfValues parser command table.schema columns)) db.answers
  | .insertSelect name columns source =>
    match source with
    | .error _ => .stops
    | .ok source =>
      let targetColumns :=
        if columns = [] then table.schema.columns.map (·.name) else columns
      if targetColumns.length ≠ source.columnCount then .stops
      else
        loopTurn (insertTurn parser command name db table)
          (source.rows.map (rowOfSource parser command name table.schema targetColumns)) db.answers
  | .update name valuesText condition =>
    match parseRow parser table.schema valuesText (tokenPosition command valuesText) with
    | .error _ => .stops
    | .ok values =>
      loopTurn (updateTurn parser command name db table condition fun _ => .ok values)
        table.rows db.answers
  | .updateAssign name assignments condition =>
    if assignments = [] then .stops
    else
      loopTurn (updateTurn parser command name db table condition
        (assignValues parser command table.schema assignments)) table.rows db.answers
  | .delete _ condition => loopTurn (deleteTurn parser table condition) table.rows db.answers
  | _ => .stops

end Statement

section Statements

variable {parser : ValueParser} {command name : String} {db : Database} {table : StoredTable}
  (hout : db.inTransaction = false) (htable : db.tables name = some table)
include hout

theorem withSchema_unknown {body : Schema → Prog QueryError Database α}
    (hnone : db.tables name = none) :
    withSchema command name body db = (.error (errorResult command "unknown table" name), db) := by
  rw [withSchema, Prog.bind_ok (loadSchema_outside hout name), hnone]
  rfl

include htable

theorem withSchema_known {body : Schema → Prog QueryError Database α} :
    withSchema command name body db = body table.schema db := by
  rw [withSchema, Prog.bind_ok (loadSchema_outside hout name), htable]
  rfl

/-- A `DELETE` or `UPDATE` follows the turns of the rows. -/
theorem does_scanStatement {p : StoredTable → Prop} {done : String}
    {body : Nat → TableRow → Prog QueryError Database Nat} {turn : TableRow → List Answer → Turn}
    (hkeeps : ∀ count row, KeepsTouched (Touched name p) (body count row))
    (hbody : ∀ count, ∀ row ∈ table.rows, ∀ t, t.inTransaction = false → t.tables = db.tables →
      Does (Touched name p) (fun _ => true) (body count row) t (turn row t.answers)) :
    Does (Touched name p) (fun _ => true) (scanStatement command name done body) db
      (loopTurn turn table.rows db.answers) := by
  have hscan : Does (Touched name p) Prod.fst
      (scanRows (fun count row => do pure (true, ← withSource command (body count row))) name 0) db
      (loopTurn turn table.rows db.answers) :=
    does_scanRows
      (fun count row => ((hkeeps count row).withSource command).bind fun _ => .pure _) name
      (fun count row hrow t hout' htables =>
        ((hbody count row hrow t hout' htables).withSource command).last (fun _ => .pure _)
          fun a _ => ⟨(true, a), rfl, rfl⟩)
      htable 0 hout rfl
  refine hscan.last ?_ ?_
  · rintro ⟨_ | _, count⟩
    · exact .stop _
    · exact .pure _
  · rintro ⟨completed, count⟩ rfl
    exact ⟨_, rfl, rfl⟩

/-- The rows that a statement leaves are not those it found, where a turn writes. -/
def Rewrites (table : StoredTable) (p : StoredTable → Prop) : Prop :=
  ∀ u, p u → u.rows ≠ table.rows

omit hout htable in
theorem rewrites_hasGrown : Rewrites table (hasGrown table) := fun u h heq => by
  rw [hasGrown, heq] at h
  exact Nat.lt_irrefl _ h

omit hout htable in
theorem rewrites_hasShrunk : Rewrites table (hasShrunk table) := fun u h heq => by
  rw [hasShrunk, heq] at h
  exact Nat.lt_irrefl _ h

omit hout htable in
theorem rewrites_hasSettled {newValues : List Value → Except QueryError (List Value)} :
    Rewrites table (hasSettled table newValues) := fun u h heq => by
  rw [hasSettled, heq] at h
  exact Nat.lt_irrefl _ h.2

theorem does_update {newValues : List Value → Except QueryError (List Value)}
    (hsettles : Settles table newValues) (condition : Option QueryCondition) :
    Does (Touched name (hasSettled table newValues)) (fun _ => true)
      (updateLoop parser command name table.schema condition newValues) db
      (loopTurn (updateTurn parser command name db table condition newValues) table.rows
        db.answers) :=
  does_scanStatement hout htable
    (fun count row => keepsTouched_updateCallback hsettles condition count row)
    fun count _ hrow _ hout' htables =>
      does_updateCallback hout htable hout' htables hsettles condition count hrow

theorem does_insert (rows : List (Except QueryError (List Value))) (result : QueryResult) :
    Does (Touched name (hasGrown table)) (fun _ => true)
      (insertLoop parser command name table.schema rows >>= fun _ => pure result) db
      (loopTurn (insertTurn parser command name db table) rows db.answers) :=
  (does_insertLoop hout htable hout rfl rows).last (fun _ => .pure _) fun _ _ => ⟨_, rfl, rfl⟩

end Statements

/-- Each statement that changes rows follows its turns. -/
theorem Statement.does_run (parser : ValueParser) (command : String) (st : Statement)
    (hst : st.changesRows = true) {db : Database} (hout : db.inTransaction = false)
    {table : StoredTable} (htable : db.tables st.tableName = some table) :
    ∃ p, Rewrites table p ∧ Does (Touched st.tableName p) (fun _ => true) (st.run parser command) db
      (st.turn parser command db table) := by
  cases st with
  | insert name columns rows =>
    refine ⟨hasGrown table, rewrites_hasGrown, ?_⟩
    refine Does.congr ?_ (withSchema_known hout htable)
    simp only [Statement.turn]
    split
    · exact ⟨_, db, rfl, rfl⟩
    · exact does_insert hout htable _ _
  | insertSelect name columns source =>
    refine ⟨hasGrown table, rewrites_hasGrown, ?_⟩
    refine Does.congr ?_ (withSchema_known hout htable)
    cases source with
    | error e => exact ⟨_, db, rfl, rfl⟩
    | ok source =>
      simp only [Statement.turn]
      generalize (if columns = [] then table.schema.columns.map (·.name) else columns) = target
      split
      · exact ⟨_, db, rfl, rfl⟩
      · exact does_insert hout htable _ _
  | update name valuesText condition =>
    simp only [Statement.turn]
    cases hvalues : parseRow parser table.schema valuesText (tokenPosition command valuesText) with
    | error e =>
      refine ⟨hasGrown table, rewrites_hasGrown, ?_⟩
      refine Does.congr ?_ (withSchema_known hout htable)
      simp only [hvalues]
      exact ⟨_, db, rfl, rfl⟩
    | ok values =>
      refine ⟨hasSettled table fun _ => .ok values, rewrites_hasSettled, ?_⟩
      refine Does.congr ?_ (withSchema_known hout htable)
      simp only [hvalues]
      exact does_update hout htable (fun _ _ hold again hagain => by cases hold; cases hagain; rfl)
        condition
  | updateAssign name assignments condition =>
    refine ⟨hasSettled table (assignValues parser command table.schema assignments),
      rewrites_hasSettled, ?_⟩
    refine Does.congr ?_ (withSchema_known hout htable)
    simp only [Statement.turn]
    split
    · exact ⟨_, db, rfl, rfl⟩
    · exact does_update hout htable (settles_assignValues parser command table assignments) condition
  | delete name condition =>
    refine ⟨hasShrunk table, rewrites_hasShrunk, ?_⟩
    refine Does.congr ?_ (withSchema_known hout htable)
    exact does_scanStatement hout htable
      (fun count row => keepsTouched_deleteCallback table.schema condition count row)
      fun count _ hrow _ hout' htables => does_deleteCallback htable hout' htables condition count hrow
  | _ => cases hst

theorem Statement.run_unknown (parser : ValueParser) (command : String) (st : Statement)
    (hst : st.changesRows = true) {db : Database} (hout : db.inTransaction = false)
    (hnone : db.tables st.tableName = none) : (st.run parser command db).2 = db := by
  cases st with
  | insert => exact congrArg Prod.snd (withSchema_unknown hout hnone)
  | insertSelect => exact congrArg Prod.snd (withSchema_unknown hout hnone)
  | update => exact congrArg Prod.snd (withSchema_unknown hout hnone)
  | updateAssign => exact congrArg Prod.snd (withSchema_unknown hout hnone)
  | delete => exact congrArg Prod.snd (withSchema_unknown hout hnone)
  | _ => cases hst

/-- Whether a statement changes a row before it stops. -/
def Statement.writesRow (parser : ValueParser) (command : String) (db : Database)
    (st : Statement) : Bool :=
  match db.tables st.tableName with
  | some table => st.turn parser command db table = .writes
  | none => false

/-! ## Two rows, the second of which is rejected -/

/-- The table is empty, and there is room at its first place. -/
def numbersDatabase : Database where
  tables := Function.update (fun _ => none) "numbers" (some (.empty numbersSchema))
  inTransaction := false
  transactionAborted := false
  activeTableLocks := fun _ => none
  answers := [.done ⟨0, 0⟩]
  events := []

end ScratchDb
