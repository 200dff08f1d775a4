import ScratchDb.Query.Writes

/-!
# What operations do to the tables

In a transaction or not: checks and lock requests leave the tables as they are,
and an update of a row puts the row in a place or leaves everything alone,
whatever it returns.
-/

namespace ScratchDb

open Database

variable {ε α β : Type}

/-! ## Programs that leave the tables -/

def SameTables (s t : Database) : Prop := t.tables = s.tables

/-- Every run leaves the tables as they are. -/
def LeavesTables (m : Prog ε Database α) : Prop := Prog.Keeps SameTables m

namespace LeavesTables

theorem refl (s : Database) : SameTables s s := rfl

theorem pure (a : α) : LeavesTables (Pure.pure a : Prog ε Database α) := Prog.keeps_pure refl a

theorem stop (e : ε) : LeavesTables (Prog.stop e : Prog ε Database α) := Prog.keeps_stop refl e

theorem get : LeavesTables (Prog.get : Prog ε Database Database) := Prog.keeps_get refl

theorem bind {m : Prog ε Database α} {f : α → Prog ε Database β} (hm : LeavesTables m)
    (hf : ∀ a, LeavesTables (f a)) : LeavesTables (m >>= f) :=
  Prog.keeps_bind (fun _ _ _ hab hbc => hbc.trans hab) hm hf

theorem modify {f : Database → Database} (h : ∀ s, (f s).tables = s.tables) :
    LeavesTables (Prog.modify f : Prog ε Database Unit) := h

theorem ite {p : Prop} [Decidable p] {m n : Prog ε Database α} (hm : LeavesTables m)
    (hn : LeavesTables n) : LeavesTables (if p then m else n) := by
  split
  · exact hm
  · exact hn

theorem withSource (command : String) {m : Prog QueryError Database α} (hm : LeavesTables m) :
    LeavesTables (ScratchDb.withSource command m) := by
  intro s
  have h := hm s
  unfold ScratchDb.withSource
  rcases hr : m s with ⟨e | a, t⟩ <;> simpa [hr] using h

theorem orStop (r : Except QueryError α) : LeavesTables (ScratchDb.orStop r) := by
  cases r with
  | ok a => exact pure a
  | error e => exact stop e

end LeavesTables

theorem leavesTables_ask : LeavesTables (ask : Prog ε Database Answer) := by
  intro s
  unfold ask
  cases s.answers <;> rfl

theorem leavesTables_obtain (name : String) (mode : TableLockMode) :
    LeavesTables (acquireTransactionLock.obtain name mode : Prog ε Database Bool) := by
  refine leavesTables_ask.bind fun answer => ?_
  cases answer with
  | done id => exact LeavesTables.bind (.modify fun _ => rfl) fun _ => .pure true
  | failed => exact .pure false

theorem leavesTables_acquireTransactionLock (name : String) (mode : TableLockMode) :
    LeavesTables (acquireTransactionLock name mode : Prog ε Database Bool) := by
  refine LeavesTables.get.bind fun db => .ite (.pure _) (.ite (.pure _) ?_)
  cases db.activeTableLocks name with
  | none => exact leavesTables_obtain name mode
  | some held =>
    exact .ite (.pure _) (LeavesTables.bind (.modify fun _ => rfl)
      fun _ => leavesTables_obtain name mode)

theorem leavesTables_loadSchema (name : String) :
    LeavesTables (loadSchema name : Prog ε Database (Option Schema)) :=
  (leavesTables_acquireTransactionLock name .shared).bind fun _ =>
    .ite (.pure _) (LeavesTables.get.bind fun _ => .pure _)

theorem leavesTables_scanRows {body : α → TableRow → Prog ε Database (Bool × α)}
    (h : ∀ a r, LeavesTables (body a r)) (name : String) (a : α) :
    LeavesTables (scanRows body name a) :=
  keeps_scanRows LeavesTables.refl (fun _ _ _ hab hbc => hbc.trans hab)
    (leavesTables_acquireTransactionLock name .shared) h a

/-! ## Checks -/

section Checks

variable (parser : ValueParser) (command name : String) (schema : Schema) (values : List Value)
  (ignore : Option RecordId)

theorem leavesTables_rowSatisfiesKey (c : ConstraintDefinition) :
    LeavesTables (rowSatisfiesKey name schema values ignore c) := by
  refine LeavesTables.ite (.stop _) ((leavesTables_scanRows (fun _ r => ?_) name false).bind
    fun _ => .ite (.stop _) (.pure _))
  exact .ite (.pure _) (.ite (.pure _) (.pure _))

theorem leavesTables_rowSatisfiesForeignKey (c : ConstraintDefinition) :
    LeavesTables (rowSatisfiesForeignKey schema values c) := by
  rw [rowSatisfiesForeignKey.eq_def]
  split
  · rename_i localName refTable refName _ _ _
    dsimp only
    cases rowValueForColumn schema values localName with
    | none => exact .pure _
    | some value =>
      refine .ite (.pure _) ((leavesTables_loadSchema refTable).bind fun refSchema => ?_)
      cases schema.findColumn localName with
      | none => exact .stop _
      | some localColumn =>
        cases refSchema with
        | none => exact .stop _
        | some refSchema =>
          dsimp only
          cases refSchema.columnIndex refName with
          | none => exact .stop _
          | some refIndex =>
            cases refSchema.findColumn refName with
            | none => exact .stop _
            | some refColumn =>
              refine .ite ((leavesTables_scanRows (fun _ r => ?_) refTable false).bind
                fun _ => .ite (.pure _) (.stop _)) (.stop _)
              rw [foreignKeyCallback]
              cases r.values[refIndex]? with
              | none => exact .pure _
              | some stored => exact .ite (.pure _) (.pure _)
  · exact .pure _

theorem leavesTables_rowSatisfiesConstraint (c : ConstraintDefinition) :
    LeavesTables (rowSatisfiesConstraint parser name schema values ignore c) := by
  unfold rowSatisfiesConstraint
  cases c.kind with
  | primaryKey => exact leavesTables_rowSatisfiesKey name schema values ignore c
  | unique => exact leavesTables_rowSatisfiesKey name schema values ignore c
  | foreignKey => exact leavesTables_rowSatisfiesForeignKey schema values c
  | check =>
    dsimp only
    cases rowSatisfiesCheckConstraint parser schema values c with
    | ok => exact .pure _
    | error e => exact .stop e

theorem leavesTables_rowSatisfiesSchemaConstraints :
    LeavesTables (rowSatisfiesSchemaConstraints parser command name schema values ignore) := by
  refine .withSource command ?_
  induction schema.constraints with
  | nil => exact .pure _
  | cons c cs ih =>
    exact (leavesTables_rowSatisfiesConstraint parser name schema values ignore c).bind fun _ => ih

end Checks

/-! ## Updates -/

/-- From `s` to `t` an update has put a row into a place. -/
structure Updated (name : String) (id : RecordId) (values : List Value) (s t : Database)
    (table : StoredTable) (old : TableRow) (newId : RecordId) : Prop where
  isThere : s.tables name = some table
  found : table.find id = some old
  tables : t.tables = Function.update s.tables name (some ((table.remove id).insert newId values))
  /-- a row that does not change stays in its place, and so does one of a memory table -/
  stays : newId = old.recordId ∨
    table.find newId = none ∧ table.stored values ≠ old.values ∧
      table.schema.storageMode = .disk

theorem newPlace_cases (table : StoredTable) (old : TableRow) (values : List Value)
    (newId : RecordId) :
    updateRow.newPlace table old values newId = old.recordId ∨
      updateRow.newPlace table old values newId = newId ∧ table.find newId = none ∧
        table.stored values ≠ old.values ∧ table.schema.storageMode = .disk := by
  rw [updateRow.newPlace]
  split
  · exact .inl rfl
  · rename_i h
    rw [not_or, not_or, Option.not_isSome_iff_eq_none] at h
    exact .inr ⟨rfl, h.2.2, h.1, table.schema.memory_or_disk.resolve_left h.2.1⟩

theorem updated_change {name : String} {id newId : RecordId} {values : List Value}
    {s t : Database} {table : StoredTable} {old : TableRow} (htable : s.tables name = some table)
    (hold : table.find id = some old)
    (ht : t.tables =
      (Change.update name id (updateRow.newPlace table old values newId) values).apply s.tables) :
    Updated name id values s t table old (updateRow.newPlace table old values newId) := by
  refine ⟨htable, hold, ?_, ?_⟩
  · rw [ht, Change.apply, htable]
    rfl
  · rcases newPlace_cases table old values newId with hstays | ⟨hplace, hrest⟩
    · exact .inl hstays
    · rw [hplace]
      exact .inr hrest

/-- A lock request returns. -/
theorem acquireTransactionLock_returns (name : String) (mode : TableLockMode) (s : Database) :
    ∃ locked t, (acquireTransactionLock name mode : Prog ε Database Bool) s = (.ok locked, t) := by
  have hobtain : ∀ u : Database, ∃ locked t,
      (acquireTransactionLock.obtain name mode : Prog ε Database Bool) u = (.ok locked, t) := by
    intro u
    rw [acquireTransactionLock.obtain, Prog.bind_ok (ask_apply u)]
    cases next u.answers <;> exact ⟨_, _, rfl⟩
  rw [acquireTransactionLock, Prog.bind_ok (Prog.get_apply s)]
  split
  · exact ⟨_, _, rfl⟩
  · split
    · exact ⟨_, _, rfl⟩
    · cases s.activeTableLocks name with
      | none => exact hobtain s
      | some held =>
        dsimp only
        split
        · exact ⟨_, _, rfl⟩
        · exact hobtain _

/-- A write that fails is made or not. -/
theorem writeFails_effect (stays : Bool) (c : Change) (s : Database) :
    ∃ t, (writeFails stays c : Prog ε Database Unit) s = (.ok (), t) ∧
      (t.tables = s.tables ∨ t.tables = c.apply s.tables) := by
  rw [writeFails, Prog.bind_ok (Prog.get_apply s)]
  split
  · exact ⟨_, rfl, .inr rfl⟩
  · exact ⟨_, rfl, .inl rfl⟩

/-- An update that returns true has been made; one that returns false may have been made too. -/
theorem updateRow_effect (name : String) (id : RecordId) (values : List Value)
    (s : Database) : ∃ (b : Bool) (t : Database),
      (updateRow name id values : Prog ε Database Bool) s = (.ok b, t) ∧
        (t.tables = s.tables ∧ b = false ∨
          ∃ table old newId, Updated name id values s t table old newId) := by
  obtain ⟨locked, u, hu⟩ := acquireTransactionLock_returns (ε := ε) name .exclusive s
  have hsame : u.tables = s.tables := by
    have h := leavesTables_acquireTransactionLock (ε := ε) name .exclusive s
    rwa [hu] at h
  rw [updateRow, Prog.bind_ok hu]
  cases locked with
  | false => exact ⟨false, u, rfl, .inl ⟨hsame, rfl⟩⟩
  | true =>
    simp only [not_true_eq_false, if_false]
    rw [Prog.bind_ok (Prog.get_apply u)]
    cases htable : u.tables name with
    | none => exact ⟨false, u, rfl, .inl ⟨hsame, rfl⟩⟩
    | some table =>
      dsimp only
      split
      · exact ⟨false, u, rfl, .inl ⟨hsame, rfl⟩⟩
      · cases hfind : table.find id with
        | none =>
          dsimp only
          split
          · exact ⟨false, _, rfl, .inl ⟨hsame, rfl⟩⟩
          · exact ⟨false, u, rfl, .inl ⟨hsame, rfl⟩⟩
        | some old =>
          have hthere : s.tables name = some table := hsame ▸ htable
          dsimp only
          rw [Prog.bind_ok (ask_apply u)]
          cases next u.answers with
          | done newId =>
            refine ⟨true, _, rfl, .inr ⟨table, old, _, @updated_change _ _ newId _ _ _ _ _ hthere
              hfind ?_⟩⟩
            show Change.apply u.tables (.update name id _ values) = _
            rw [hsame]
          | failed stays newId =>
            dsimp only
            split
            · obtain ⟨t, ht, heffect⟩ := writeFails_effect (ε := ε) stays
                (.update name id (updateRow.newPlace table old values newId) values)
                { u with answers := u.answers.tail }
              rw [Prog.bind_ok ht]
              refine ⟨false, t, rfl, ?_⟩
              rcases heffect with hleft | hmade
              · exact .inl ⟨hleft.trans hsame, rfl⟩
              · refine .inr ⟨table, old, _, @updated_change _ _ newId _ _ _ _ _ hthere hfind ?_⟩
                rw [hmade]
                show Change.apply u.tables _ = Change.apply s.tables _
                rw [hsame]
            · exact ⟨false, _, rfl, .inl ⟨hsame, rfl⟩⟩

end ScratchDb
