import ScratchDb.Query.StatementAtomicity
import ScratchDb.Query.TableEffects
import ScratchDb.Values.ValueParser

/-!
# Which rows an `UPDATE` touches

An `UPDATE` changes the rows of a table file while it scans it. A row that
grows may be moved to a page that the scan has not read yet, and is met there
again. The second visit changes nothing, but it is counted.
-/

namespace ScratchDb

open Database

/-- A visit of an `UPDATE` to a row that matches its condition. -/
structure Visit where
  row : TableRow
  /-- the table has other rows than before -/
  written : Bool
  /-- the storage reports that the update is made -/
  counted : Bool
deriving DecidableEq

/-! ## The visits of a statement -/

/-- The two forms of `SET`. -/
inductive SetClause where
  | wholeRow (valuesText : String)
  | assigned (assignments : List (String × String))

section Visits

variable (parser : ValueParser) (command name : String) (condition : Option QueryCondition)

def SetClause.statement : SetClause → Statement
  | .wholeRow valuesText => .update name valuesText condition
  | .assigned assignments => .updateAssign name assignments condition

/-- How the new values of a row are computed from the old ones. -/
def SetClause.newValues (schema : Schema) :
    SetClause → Except QueryError (List Value → Except QueryError (List Value))
  | .wholeRow valuesText =>
    match parseRow parser schema valuesText (tokenPosition command valuesText) with
    | .error e => .error (e.toQueryError command)
    | .ok values => .ok fun _ => .ok values
  | .assigned assignments =>
    if assignments = [] then .error (errorResult command "no assignments specified" "SET")
    else .ok (assignValues parser command schema assignments)

/-- `updateCallback`, which notes the visits instead of counting the updates. -/
def visitCallback (schema : Schema) (newValues : List Value → Except QueryError (List Value))
    (visits : List Visit) (row : TableRow) : Prog QueryError Database (List Visit) := do
  if ← orStop (matchesWhere parser schema row condition) then
    let values ← orStop (newValues row.values)
    rowSatisfiesSchemaConstraints parser command name schema values (some row.recordId)
    let before ← Prog.get
    let counted ← Database.updateRow name row.recordId values
    let after ← Prog.get
    pure (visits ++ [{ row, written := after.rows name ≠ before.rows name, counted }])
  else
    pure visits

/-- What the scan of an `UPDATE` calls for each row. -/
def visitBody (schema : Schema) (newValues : List Value → Except QueryError (List Value))
    (visits : List Visit) (row : TableRow) : Prog QueryError Database (Bool × List Visit) := do
  pure (true, ← withSource command (visitCallback parser command name condition schema newValues
    visits row))

/-- The scan of an `UPDATE`. -/
def visitRows (clause : SetClause) : Prog QueryError Database (Bool × List Visit) :=
  withSchema command name fun schema => do
    match clause.newValues parser command schema with
    | .error e => Prog.stop e
    | .ok newValues =>
      Database.scanRows (visitBody parser command name condition schema newValues) name []

/-- The visits of an `UPDATE`. -/
def visits (clause : SetClause) (db : Database) : List Visit :=
  match (visitRows parser command name condition clause db).1 with
  | .ok (_, visits) => visits
  | .error _ => []

end Visits

/-! ## An `UPDATE` counts the visits that the storage reports as made -/

section Scans

variable {ε α β : Type} {f : β → α} {body : α → TableRow → Prog ε Database (Bool × α)}
  {body' : β → TableRow → Prog ε Database (Bool × β)}

/-- A scan result, with what was accumulated mapped. -/
def mapResult (f : β → α) (r : Bool × β) : Bool × α := (r.1, f r.2)

variable (h : ∀ b r, body (f b) r = Prog.map (mapResult f) (body' b r))
include h

theorem scanList_map (b : β) (rows : List TableRow) :
    scanList body (f b) rows = Prog.map (mapResult f) (scanList body' b rows) := by
  induction rows generalizing b with
  | nil => rfl
  | cons r rs ih =>
    rw [scanList, scanList, h, Prog.bind_map, Prog.map_bind]
    refine congrArg _ (funext fun r => ?_)
    obtain ⟨go, b'⟩ := r
    cases go with
    | true => exact ih b'
    | false => rfl

theorem scanPages_map (name : String) (b : β) (pages : List Nat) :
    scanPages body name (f b) pages = Prog.map (mapResult f) (scanPages body' name b pages) := by
  induction pages generalizing b with
  | nil => rfl
  | cons p ps ih =>
    rw [scanPages, scanPages, Prog.map_bind]
    refine congrArg _ (funext fun db => ?_)
    dsimp only
    rw [scanList_map h, Prog.bind_map, Prog.map_bind]
    refine congrArg _ (funext fun r => ?_)
    obtain ⟨go, b'⟩ := r
    cases go with
    | true => exact ih b'
    | false => rfl

theorem scanRows_map (name : String) (b : β) :
    scanRows body name (f b) = Prog.map (mapResult f) (scanRows body' name b) := by
  rw [scanRows, scanRows, Prog.map_bind]
  refine congrArg _ (funext fun locked => ?_)
  cases locked with
  | false => rfl
  | true =>
    simp only [not_true_eq_false, if_false]
    rw [Prog.map_bind]
    refine congrArg _ (funext fun db => ?_)
    cases db.tables name with
    | none => rfl
    | some table =>
      dsimp only
      cases table.schema.storageMode with
      | memory => exact scanList_map h b table.rows
      | disk => exact scanPages_map h name b _

end Scans

theorem withSource_map {α β : Type} (command : String) (f : α → β)
    (m : Prog QueryError Database α) :
    withSource command (Prog.map f m) = Prog.map f (withSource command m) := by
  funext db
  unfold Prog.map
  rcases h : m db with ⟨_ | _, _⟩ <;> simp [withSource, h, Except.map]

section Count

variable (parser : ValueParser) (command name : String) (condition : Option QueryCondition)

/-- How many updates the storage has reported as made. -/
def countedVisits (visits : List Visit) : Nat := visits.countP Visit.counted

theorem updateCallback_map (schema : Schema)
    (newValues : List Value → Except QueryError (List Value)) (visits : List Visit)
    (row : TableRow) :
    updateCallback parser command name schema condition newValues (countedVisits visits) row =
      Prog.map countedVisits
        (visitCallback parser command name condition schema newValues visits row) := by
  rw [updateCallback, visitCallback, Prog.map_bind]
  refine congrArg _ (funext fun matched => ?_)
  cases matched with
  | false => rfl
  | true =>
    simp only [if_true]
    rw [Prog.map_bind]
    refine congrArg _ (funext fun values => ?_)
    rw [Prog.map_bind]
    refine congrArg _ (funext fun _ => ?_)
    funext db
    rw [Prog.map_bind, Prog.bind_ok (Prog.get_apply db), Prog.map_bind, Prog.bind_apply,
      Prog.bind_apply]
    rcases updateRow name row.recordId values db with ⟨e | counted, t⟩
    · rfl
    · dsimp only
      rw [Prog.map_bind, Prog.bind_ok (Prog.get_apply t), Prog.map_pure, countedVisits,
        countedVisits, List.countP_append]
      cases counted <;> rfl

/-- The result of an `UPDATE`, from the result of its scan. -/
def updateResult (r : Bool × List Visit) : Prog QueryError Database QueryResult :=
  if r.1 then pure { message := "row updated", rowCount := countedVisits r.2 }
  else Prog.stop (errorResult command "scan failed" name)

/-- An `UPDATE` is its visits, counted. -/
theorem run_updateStatement (clause : SetClause) :
    (clause.statement name condition).run parser command =
      visitRows parser command name condition clause >>= updateResult command name := by
  have hloop : ∀ schema newValues,
      updateLoop parser command name schema condition newValues =
        scanRows (visitBody parser command name condition schema newValues) name [] >>=
          updateResult command name := by
    intro schema newValues
    have hscan := @scanRows_map _ _ _ countedVisits
      (fun count row => do
        pure (true, ← withSource command
          (updateCallback parser command name schema condition newValues count row)))
      (visitBody parser command name condition schema newValues)
      (fun visits row => by
        rw [updateCallback_map, withSource_map, Prog.bind_map, visitBody, Prog.map_bind]
        rfl) name []
    rw [updateLoop, scanStatement]
    refine (congrArg (· >>= _) hscan).trans ?_
    rw [Prog.bind_map]
    rfl
  have hbind : ∀ body : Schema → Prog QueryError Database (Bool × List Visit),
      withSchema command name body >>= updateResult command name =
        withSchema command name fun schema => body schema >>= updateResult command name := by
    intro body
    funext db
    unfold withSchema
    simp only [Prog.bind_apply]
    rcases loadSchema name db with ⟨_ | _ | _, _⟩ <;> rfl
  rw [visitRows, hbind]
  cases clause with
  | wholeRow valuesText =>
    show withSchema command name _ = _
    refine congrArg _ (funext fun schema => ?_)
    rw [SetClause.newValues]
    cases parseRow parser schema valuesText (tokenPosition command valuesText) with
    | error e => rfl
    | ok values => exact hloop schema _
  | assigned assignments =>
    show withSchema command name _ = _
    refine congrArg _ (funext fun schema => ?_)
    rw [SetClause.newValues]
    split
    · rfl
    · exact hloop schema _

end Count

/-! ## Where the rows are -/

namespace StoredTable

/-- A row first, then the others. -/
theorem rows_perm_remove {t : StoredTable} {r : TableRow} (hr : r ∈ t.rows) :
    t.rows.Perm (r :: (t.remove r.recordId).rows) := by
  have herase : (t.remove r.recordId).rows = t.rows.erase r := by
    rw [t.nodup_recordIds.of_map.erase_eq_filter, remove_rows]
    refine List.filter_congr fun x hx => ?_
    have hiff : x.recordId ≠ r.recordId ↔ x ≠ r :=
      not_congr ⟨eq_of_recordId hx hr, congrArg _⟩
    rw [Bool.eq_iff_iff, decide_eq_true_iff, bne_iff_ne]
    exact hiff
  rw [herase]
  exact List.perm_cons_erase hr

/-- After an update, the new row and the others. -/
theorem update_rows_perm {t : StoredTable} {id newId : RecordId}
    (hfree : newId = id ∨ t.find newId = none) (values : List Value) :
    ((t.remove id).insert newId values).rows.Perm
      (⟨newId, t.stored values⟩ :: (t.remove id).rows) := by
  have hrows : ((t.remove id).remove newId).rows = (t.remove id).rows := by
    rw [remove_rows, List.filter_eq_self]
    intro x hx
    obtain ⟨hmem, hne⟩ := mem_remove.mp hx
    rcases hfree with rfl | hnone
    · simpa using hne
    · simpa using find_eq_none hnone x hmem
  rw [insert_rows, hrows]
  exact insertRowSorted_perm _ _

end StoredTable

/-- What a scan of a table has done to a row `r` of the table before it: where the row is now.
The rows `ahead` have not been reached. -/
inductive Stage (matched : TableRow → Bool) (target : TableRow → Option (List Value))
    (ahead : TableRow → Prop) (visits : List Visit) (r : TableRow) : TableRow → Prop
  | waits : ahead r → Stage matched target ahead visits r r
  | passed : ¬ ahead r → matched r = false → Stage matched target ahead visits r r
  | stays (v : Visit) : ¬ ahead r → matched r = true → v ∈ visits → v.row = r →
      v.written = false → Stage matched target ahead visits r r
  | changes (v : Visit) (id : RecordId) (values : List Value) : ¬ ahead r → matched r = true →
      v ∈ visits → v.row = r → v.written = true → target r = some values →
        Stage matched target ahead visits r ⟨id, values⟩

/-- How far the scan of an `UPDATE` of `table` has come: `place` gives the rows of `table` as they
are now, and all visits have been to rows before those `ahead`, in order. -/
structure Progress (table : StoredTable) (matched : TableRow → Bool)
    (target : TableRow → Option (List Value)) (ahead : TableRow → Prop) (visits : List Visit)
    (u : StoredTable) (place : TableRow → TableRow) : Prop where
  schema : u.schema = table.schema
  rows : u.rows.Perm (table.rows.map place)
  stages : ∀ r ∈ table.rows, Stage matched target ahead visits r (place r)
  inOrder : InOrder (visits.map Visit.row)
  visited : ∀ v ∈ visits, matched v.row = true
  behind : ∀ v ∈ visits, ∀ r, ahead r → v.row.recordId.precedes r.recordId = true

section Progress

variable {table u : StoredTable} {matched : TableRow → Bool} {target : TableRow → Option (List Value)}
  {ahead rest : TableRow → Prop} {vs : List Visit} {place : TableRow → TableRow} {x : TableRow}

theorem Stage.of_ahead {r r' : TableRow} (h : Stage matched target ahead vs r r') (hr : ahead r) :
    r' = r := by
  cases h with
  | waits => rfl
  | passed => rfl
  | stays => rfl
  | changes _ _ _ hr' => exact absurd hr hr'

/-- A later stage, for a row that has been left where it was or has not been reached. -/
theorem Stage.mono {r r' : TableRow} {vs' : List Visit} (h : Stage matched target ahead vs r r')
    (hiff : ahead r ↔ rest r) (hvs : ∀ v ∈ vs, v ∈ vs') : Stage matched target rest vs' r r' := by
  cases h with
  | waits hr => exact .waits (hiff.mp hr)
  | passed hr hm => exact .passed (mt hiff.mpr hr) hm
  | stays v hr hm hv hrow hw => exact .stays v (mt hiff.mpr hr) hm (hvs v hv) hrow hw
  | changes v id values hr hm hv hrow hw hvalues =>
    exact .changes v id values (mt hiff.mpr hr) hm (hvs v hv) hrow hw hvalues

namespace Progress

theorem start (table : StoredTable) (matched : TableRow → Bool) (target : TableRow → Option (List Value))
    {ahead : TableRow → Prop} (hall : ∀ r ∈ table.rows, ahead r) :
    Progress table matched target ahead [] table id where
  schema := rfl
  rows := by rw [List.map_id]
  stages r hr := .waits (hall r hr)
  inOrder := List.Pairwise.nil
  visited v hv := absurd hv List.not_mem_nil
  behind v hv := absurd hv List.not_mem_nil

variable (h : Progress table matched target ahead vs u place)
include h

theorem congr (horig : ∀ r ∈ table.rows, ahead r ↔ rest r) (hrest : ∀ r, rest r → ahead r) :
    Progress table matched target rest vs u place :=
  { h with
    stages := fun r hr => (h.stages r hr).mono (horig r hr) fun _ hv => hv
    behind := fun v hv r hr => h.behind v hv r (hrest r hr) }

/-- A row that has not been reached is in its place. -/
theorem mem_of_ahead {r : TableRow} (hr : r ∈ table.rows) (ha : ahead r) : r ∈ u.rows := by
  rw [h.rows.mem_iff, ← (h.stages r hr).of_ahead ha]
  exact List.mem_map_of_mem hr

/-- A row that is met is one of the table before, in its place, or has been updated. -/
theorem met (hx : x ∈ u.rows) (ha : ahead x) :
    x ∈ table.rows ∧ place x = x ∨
      x ∉ table.rows ∧ ∃ r, target r = some x.values := by
  obtain ⟨r, hr, rfl⟩ := List.mem_map.mp (h.rows.mem_iff.mp hx)
  by_cases hmem : place r ∈ table.rows
  · have hown := (h.stages _ hmem).of_ahead ha
    exact .inl ⟨hmem, hown⟩
  · refine .inr ⟨hmem, r, ?_⟩
    generalize hplace : place r = x at *
    cases hplace ▸ h.stages r hr with
    | waits => exact absurd hr hmem
    | passed => exact absurd hr hmem
    | stays => exact absurd hr hmem
    | changes _ _ _ _ _ _ _ _ hvalues => exact hvalues

/-- The visits so far, after one more. -/
theorem inOrder_append (ha : ahead x) (v : Visit) (hv : v.row = x) :
    InOrder ((vs ++ [v]).map Visit.row) := by
  rw [List.map_append, InOrder, List.pairwise_append]
  refine ⟨h.inOrder, List.pairwise_singleton _ _, ?_⟩
  intro r hr y hy
  obtain ⟨w, hw, rfl⟩ := List.mem_map.mp hr
  rw [List.map_singleton, List.mem_singleton, hv] at hy
  subst hy
  exact h.behind w hw y ha

end Progress

/-! One row after another: `x` is the first row ahead. -/

section Step

variable (h : Progress table matched target (fun r => r = x ∨ rest r) vs u place)
  (hx : x ∈ u.rows) (hfirst : ∀ r, rest r → x.recordId.precedes r.recordId = true)
include h hfirst

omit h in
theorem not_rest : ¬ rest x := fun hrest => RecordId.ne_of_precedes (hfirst x hrest) rfl

omit hfirst in
/-- The stages of the other rows do not change. -/
theorem Progress.stage_rest {r : TableRow} (hr : r ∈ table.rows) (hne : r ≠ x) {vs' : List Visit}
    (hvs : ∀ v ∈ vs, v ∈ vs') : Stage matched target rest vs' r (place r) :=
  (h.stages r hr).mono (or_iff_right hne) hvs

/-- A row that does not match is passed. -/
theorem Progress.pass (hm : matched x = false) : Progress table matched target rest vs u place :=
  { h with
    stages := fun r hr => by
      by_cases hne : r = x
      · subst hne
        rw [(h.stages r hr).of_ahead (.inl rfl)]
        exact .passed (not_rest hfirst) hm
      · exact h.stage_rest hr hne fun _ hv => hv
    behind := fun v hv r hr => h.behind v hv r (.inr hr) }

theorem Progress.visit_behind (v : Visit) (hv : v.row = x) :
    ∀ w ∈ vs ++ [v], ∀ r, rest r → w.row.recordId.precedes r.recordId = true := by
  intro w hw r hr
  rcases List.mem_append.mp hw with hw | hw
  · exact h.behind w hw r (.inr hr)
  · rw [List.mem_singleton.mp hw, hv]
    exact hfirst r hr

omit hfirst in
theorem Progress.visit_visited (v : Visit) (hv : v.row = x) (hm : matched x = true) :
    ∀ w ∈ vs ++ [v], matched w.row = true := by
  intro w hw
  rcases List.mem_append.mp hw with hw | hw
  · exact h.visited w hw
  · rw [List.mem_singleton.mp hw, hv]
    exact hm

/-- A visit that leaves the rows. -/
theorem Progress.leave (hm : matched x = true) (counted : Bool) :
    Progress table matched target rest (vs ++ [⟨x, false, counted⟩]) u place :=
  { h with
    stages := fun r hr => by
      by_cases hne : r = x
      · subst hne
        rw [(h.stages r hr).of_ahead (.inl rfl)]
        exact .stays _ (not_rest hfirst) hm (List.mem_append_right _ (List.mem_singleton_self _))
          rfl rfl
      · exact h.stage_rest hr hne fun _ hv => List.mem_append_left _ hv
    inOrder := h.inOrder_append (.inl rfl) _ rfl
    visited := h.visit_visited _ rfl hm
    behind := h.visit_behind hfirst _ rfl }

/-- A visit that writes new values for a row of the table before. -/
theorem Progress.write (horig : x ∈ table.rows) (hm : matched x = true) (counted : Bool)
    {newId : RecordId} {values : List Value} (hvalues : target x = some values) {w : StoredTable}
    (hschema : w.schema = table.schema)
    (hw : w.rows.Perm (⟨newId, values⟩ :: (u.remove x.recordId).rows)) :
    Progress table matched target rest (vs ++ [⟨x, true, counted⟩]) w
      (Function.update place x ⟨newId, values⟩) where
  schema := hschema
  rows := by
    have hplace : place x = x := (h.stages x horig).of_ahead (.inl rfl)
    have hx : x ∈ u.rows := h.mem_of_ahead horig (.inl rfl)
    have hothers : ((table.rows.erase x).map (Function.update place x ⟨newId, values⟩)) =
        (table.rows.erase x).map place := by
      refine List.map_congr_left fun r hr => ?_
      have hne : r ≠ x := fun heq =>
        (table.nodup_recordIds.of_map.not_mem_erase) (heq ▸ hr)
      rw [Function.update_of_ne hne]
    have herase : (u.remove x.recordId).rows.Perm ((table.rows.erase x).map place) := by
      refine List.Perm.cons_inv ((StoredTable.rows_perm_remove hx).symm.trans (h.rows.trans ?_))
      have hall := (List.perm_cons_erase horig).map place
      rwa [List.map_cons, hplace] at hall
    refine (hw.trans (herase.cons _)).trans ?_
    have hall := ((List.perm_cons_erase horig).map
      (Function.update place x ⟨newId, values⟩)).symm
    rwa [List.map_cons, Function.update_self, hothers] at hall
  stages := fun r hr => by
    by_cases hne : r = x
    · subst hne
      rw [Function.update_self]
      exact .changes _ newId values (not_rest hfirst) hm
        (List.mem_append_right _ (List.mem_singleton_self _)) rfl rfl hvalues
    · rw [Function.update_of_ne hne]
      exact h.stage_rest hr hne fun _ hv => List.mem_append_left _ hv
  inOrder := h.inOrder_append (.inl rfl) _ rfl
  visited := h.visit_visited _ rfl hm
  behind := h.visit_behind hfirst _ rfl

end Step

end Progress

/-! ## One visit -/

/-- Whether a row matches. -/
def matchesRow (parser : ValueParser) (schema : Schema) (condition : Option QueryCondition)
    (r : TableRow) : Bool :=
  match matchesWhere parser schema r condition with
  | .ok matched => matched
  | .error _ => false

/-- What a row holds after its update, where that can be computed. -/
def assignedValues (table : StoredTable)
    (newValues : List Value → Except QueryError (List Value)) (r : TableRow) :
    Option (List Value) :=
  match newValues r.values with
  | .ok values => some (table.stored values)
  | .error _ => none

section Visit

variable {parser : ValueParser} {command name : String} {condition : Option QueryCondition}
  {newValues : List Value → Except QueryError (List Value)} {row : TableRow} {vs vs' : List Visit}
  {s t : Database} {table u : StoredTable} {place : TableRow → TableRow}
  {rest : TableRow → Prop}

/-- A visit to a row that matches leaves the table or puts the row, with its new values, into a
place. -/
structure Visited (name : String) (values : List Value) (row : TableRow) (u w : StoredTable)
    (t : Database) : Prop where
  tables : t.tables name = some w
  effect : w = u ∨ ∃ old newId, u.find row.recordId = some old ∧
    w = (u.remove row.recordId).insert newId values ∧
      (newId = old.recordId ∨ u.find newId = none ∧ u.stored values ≠ old.values)

theorem visitCallback_effect {schema : Schema} (hu : s.tables name = some u)
    (hrun : visitCallback parser command name condition schema newValues vs row s =
      (.ok vs', t)) :
    (matchesRow parser schema condition row = false ∧ vs' = vs ∧ t.tables name = some u) ∨
      (matchesRow parser schema condition row = true ∧ ∃ values w counted,
        newValues row.values = .ok values ∧ Visited name values row u w t ∧
          vs' = vs ++ [⟨row, decide (w.rows ≠ u.rows), counted⟩]) := by
  rw [visitCallback] at hrun
  rw [matchesRow]
  rcases hm : matchesWhere parser schema row condition with e | _ | _ <;> rw [hm] at hrun
  · cases hrun
  · rw [orStop_ok_bind] at hrun
    cases hrun
    exact .inl ⟨rfl, rfl, hu⟩
  rw [orStop_ok_bind] at hrun
  simp only [if_true] at hrun
  cases hvalues : newValues row.values with
  | error e =>
    rw [hvalues] at hrun
    cases hrun
  | ok values =>
    rw [hvalues, orStop_ok_bind] at hrun
    obtain ⟨_, s₁, hchecks, hrun⟩ := Prog.bind_eq_ok hrun
    have hsame : s₁.tables = s.tables := by
      have h := leavesTables_rowSatisfiesSchemaConstraints parser command name schema values
        (some row.recordId) s
      rwa [hchecks] at h
    have hu₁ : s₁.tables name = some u := by rw [hsame, hu]
    rw [Prog.bind_ok (Prog.get_apply s₁)] at hrun
    obtain ⟨counted, s₂, hupdate, heffect⟩ :=
      @updateRow_effect QueryError name row.recordId values s₁
    rw [Prog.bind_ok hupdate, Prog.bind_ok (Prog.get_apply s₂)] at hrun
    cases hrun
    have hvisited : ∃ w, Visited name values row u w t := by
      rcases heffect with ⟨htables, -⟩ | ⟨table', old, newId, hput⟩
      · exact ⟨u, by rw [htables, hu₁], .inl rfl⟩
      · obtain rfl : u = table' := Option.some_inj.mp (hu₁.symm.trans hput.isThere)
        refine ⟨_, by rw [hput.tables, Function.update_self], .inr ⟨old, newId, hput.found, rfl, ?_⟩⟩
        exact hput.stays.imp_right fun hmoves => ⟨hmoves.1, hmoves.2.1⟩
    obtain ⟨w, hw⟩ := hvisited
    refine .inr ⟨rfl, values, w, counted, rfl, hw, ?_⟩
    have hrows : t.rows name ≠ s₁.rows name ↔ w.rows ≠ u.rows := by
      rw [Database.rows, Database.rows, hw.tables, hu₁, Option.map_some, Option.map_some, ne_eq,
        Option.some_inj]
    rw [decide_eq_decide.mpr hrows]

/-- One visit: the row is behind then, and the other rows of the table are still there. -/
theorem Progress.visitCallback (hsettles : Settles table newValues) (hu : s.tables name = some u)
    (h : Progress table (matchesRow parser table.schema condition)
      (assignedValues table newValues) (fun r => r = row ∨ rest r) vs u place)
    (hrow : row ∈ u.rows) (hfirst : ∀ r, rest r → row.recordId.precedes r.recordId = true)
    (hrun : ScratchDb.visitCallback parser command name condition table.schema newValues vs row s =
      (.ok vs', t)) :
    ∃ w place', t.tables name = some w ∧
      Progress table (matchesRow parser table.schema condition) (assignedValues table newValues)
        rest vs' w place' ∧ ∀ r ∈ u.rows, r ≠ row → r ∈ w.rows := by
  rcases visitCallback_effect hu hrun with
    ⟨hm, rfl, ht⟩ | ⟨hm, values, w, counted, hvalues, ⟨ht, heffect⟩, rfl⟩
  · exact ⟨u, place, ht, h.pass hfirst hm, fun r hr _ => hr⟩
  have hleave : w = u → ∃ w' place', t.tables name = some w' ∧
      Progress table (matchesRow parser table.schema condition) (assignedValues table newValues)
        rest (vs ++ [⟨row, decide (w.rows ≠ u.rows), counted⟩]) w' place' ∧
          ∀ r ∈ u.rows, r ≠ row → r ∈ w'.rows := by
    rintro rfl
    refine ⟨w, place, ht, ?_, fun r hr _ => hr⟩
    have hwritten : decide (w.rows ≠ w.rows) = false := decide_eq_false fun hne => hne rfl
    rw [hwritten]
    exact h.leave hfirst hm counted
  rcases heffect with heq | ⟨old, newId, hfind, hput, hplace⟩
  · exact hleave heq
  obtain rfl : row = old :=
    StoredTable.eq_of_recordId hrow (StoredTable.find_eq_some hfind).1
      (StoredTable.find_eq_some hfind).2.symm
  have hstored : u.stored values = table.stored values := StoredTable.stored_congr h.schema values
  by_cases hsame : u.stored values = row.values
  · -- a row that has its values already stays where it is
    have hstays : newId = row.recordId := hplace.resolve_right fun hmoves => hmoves.2 hsame
    rw [hstays, StoredTable.insert_remove_self hfind hsame] at hput
    exact hleave hput
  · have horig : row ∈ table.rows := by
      rcases h.met hrow (.inl rfl) with ⟨horig, -⟩ | ⟨-, r, hold⟩
      · exact horig
      · -- an updated row has its values already
        refine absurd ?_ hsame
        rw [assignedValues] at hold
        cases hnew : newValues r.values with
        | error e =>
          rw [hnew] at hold
          cases hold
        | ok first =>
          rw [hnew, Option.some_inj] at hold
          rw [← hold] at hvalues ⊢
          rw [hstored]
          exact hsettles r.values first hnew values hvalues
    have hfree : newId = row.recordId ∨ u.find newId = none := hplace.imp_right fun hmoves => hmoves.1
    have hrows : w.rows.Perm (⟨newId, u.stored values⟩ :: (u.remove row.recordId).rows) :=
      hput ▸ StoredTable.update_rows_perm hfree values
    have hwritten : decide (w.rows ≠ u.rows) = true := by
      refine decide_eq_true fun heq => ?_
      rw [heq] at hrows
      rcases List.mem_cons.mp (hrows.mem_iff.mp hrow) with hr | hr
      · exact hsame (congrArg TableRow.values hr).symm
      · exact (StoredTable.mem_remove.mp hr).2 rfl
    have htarget : assignedValues table newValues row = some (u.stored values) := by
      rw [assignedValues, hvalues, hstored]
    refine ⟨w, Function.update place row ⟨newId, u.stored values⟩, ht, ?_, fun r hr hne => ?_⟩
    · rw [hwritten]
      exact h.write hfirst horig hm counted htarget (hput ▸ h.schema) hrows
    · refine hrows.mem_iff.mpr (List.mem_cons_of_mem _ (StoredTable.mem_remove.mpr ⟨hr, ?_⟩))
      exact fun hid => hne (StoredTable.eq_of_recordId hr hrow hid)

end Visit

/-! ## The scan -/

theorem withSource_eq_ok {α : Type} {command : String} {m : Prog QueryError Database α}
    {s t : Database} {a : α} (h : withSource command m s = (.ok a, t)) : m s = (.ok a, t) := by
  rw [withSource] at h
  rcases hm : m s with ⟨e | b, u⟩ <;> rw [hm] at h
  · cases h
  · exact h

/-- The scan of an `UPDATE` of `table` has still to reach the rows `ahead`, and has made `vs`. -/
def Reached (parser : ValueParser) (name : String) (condition : Option QueryCondition)
    (table : StoredTable) (newValues : List Value → Except QueryError (List Value))
    (ahead : TableRow → Prop) (vs : List Visit) (db : Database) (u : StoredTable) : Prop :=
  db.tables name = some u ∧ ∃ place, Progress table (matchesRow parser table.schema condition)
    (assignedValues table newValues) ahead vs u place

section Scan

variable {parser : ValueParser} {command name : String} {condition : Option QueryCondition}
  {newValues : List Value → Except QueryError (List Value)} {table u : StoredTable}
  {vs vs' : List Visit} {s t : Database} {done : Bool}

theorem Reached.congr {ahead rest : TableRow → Prop}
    (h : Reached parser name condition table newValues ahead vs s u)
    (horig : ∀ r ∈ table.rows, r ∈ u.rows → (ahead r ↔ rest r)) (hrest : ∀ r, rest r → ahead r) :
    Reached parser name condition table newValues rest vs s u := by
  obtain ⟨hu, place, hp⟩ := h
  refine ⟨hu, place, hp.congr (fun r hr => ⟨fun ha => ?_, hrest r⟩) hrest⟩
  exact (horig r hr (hp.mem_of_ahead hr ha)).mp ha

variable (hsettles : Settles table newValues)
include hsettles

/-- A scan of rows in order: `later` are the rows behind them. -/
theorem reached_scanList {later : TableRow → Prop} (rows : List TableRow)
    (h : Reached parser name condition table newValues (fun r => r ∈ rows ∨ later r) vs s u)
    (hrows : ∀ r ∈ rows, r ∈ u.rows) (hord : InOrder rows)
    (hlater : ∀ r ∈ rows, ∀ y, later y → r.recordId.precedes y.recordId = true)
    (hrun : scanList (visitBody parser command name condition table.schema newValues) vs rows s =
      (.ok (done, vs'), t)) :
    done = true ∧ ∃ w, Reached parser name condition table newValues later vs' t w := by
  induction rows generalizing vs s u with
  | nil =>
    cases hrun
    exact ⟨rfl, u, h.congr (fun r _ _ => by simp) fun r hr => .inr hr⟩
  | cons x rest ih =>
    obtain ⟨hx, hord⟩ := List.pairwise_cons.mp hord
    obtain ⟨⟨go, vs₁⟩, s₁, hbody, hrun⟩ := Prog.bind_eq_ok hrun
    obtain ⟨vs₂, s₂, hcall, hpure⟩ := Prog.bind_eq_ok hbody
    cases hpure
    have hfirst : ∀ r, r ∈ rest ∨ later r → x.recordId.precedes r.recordId = true := by
      rintro r (hr | hr)
      · exact hx r hr
      · exact hlater x List.mem_cons_self r hr
    obtain ⟨hu, place, hp⟩ := h
    obtain ⟨w, place', hw, hp', hstay⟩ :=
      (hp.congr (fun r _ => by rw [List.mem_cons, or_assoc]) fun r hr => by
        rwa [List.mem_cons, or_assoc]).visitCallback hsettles hu (hrows x List.mem_cons_self)
          hfirst (withSource_eq_ok hcall)
    refine ih ⟨hw, place', hp'⟩ (fun r hr => ?_) hord
      (fun r hr => hlater r (List.mem_cons_of_mem x hr)) hrun
    refine hstay r (hrows r (List.mem_cons_of_mem x hr)) fun heq => ?_
    exact RecordId.ne_of_precedes (hx r hr) (congrArg TableRow.recordId heq.symm)

/-- A scan of `k` pages from page `p` on. -/
theorem reached_scanPages (p k : Nat)
    (h : Reached parser name condition table newValues (fun r => p ≤ r.recordId.pageId) vs s u)
    (hrun : scanPages (visitBody parser command name condition table.schema newValues) name vs
      (List.range' p k) s = (.ok (done, vs'), t)) :
    done = true ∧ ∃ w, Reached parser name condition table newValues
      (fun r => p + k ≤ r.recordId.pageId) vs' t w := by
  induction k generalizing p vs s u with
  | zero =>
    cases hrun
    exact ⟨rfl, u, h⟩
  | succ k ih =>
    rw [List.range'_succ, scanPages, Prog.bind_ok (Prog.get_apply s), h.1] at hrun
    obtain ⟨⟨go, vs₁⟩, s₁, hlist, hrun⟩ := Prog.bind_eq_ok hrun
    have hpage : ∀ r, r ∈ u.rows.filter (fun r => r.recordId.pageId = p) ↔
        r ∈ u.rows ∧ r.recordId.pageId = p := by
      intro r
      rw [List.mem_filter, decide_eq_true_iff]
    obtain ⟨rfl, w, hw⟩ := reached_scanList hsettles _
      (@Reached.congr _ _ _ _ _ _ _ _ _
        (fun r => r ∈ u.rows.filter (fun r => r.recordId.pageId = p) ∨ p + 1 ≤ r.recordId.pageId) h
        (fun r _ hr => by simp only [hpage, hr, true_and]; omega) fun r hr => by
          simp only [hpage] at hr
          omega)
      (fun r hr => ((hpage r).mp hr).1) (u.inOrder.filter _)
      (fun r hr y hy => RecordId.precedes_iff.mpr (.inl (by have := ((hpage r).mp hr).2; omega)))
      hlist
    have hnext := ih (p + 1) hw hrun
    rwa [Nat.add_assoc, Nat.add_comm 1 k] at hnext

/-- A scan that is completed has reached all rows. -/
theorem reached_scanRows (htable : s.tables name = some table)
    (hrun : scanRows (visitBody parser command name condition table.schema newValues) name [] s =
      (.ok (true, vs'), t)) :
    ∃ w, Reached parser name condition table newValues (fun _ => False) vs' t w := by
  obtain ⟨locked, s₁, hlock, hrun⟩ := Prog.bind_eq_ok hrun
  have hsame : s₁.tables = s.tables := by
    have hkeeps := leavesTables_acquireTransactionLock (ε := QueryError) name .shared s
    rwa [hlock] at hkeeps
  have htable₁ : s₁.tables name = some table := by rw [hsame, htable]
  cases locked with
  | false => cases hrun
  | true =>
    simp only [not_true_eq_false, if_false] at hrun
    rw [Prog.bind_ok (Prog.get_apply s₁), htable₁] at hrun
    dsimp only at hrun
    rcases table.schema.memory_or_disk with hmode | hmode <;> rw [hmode] at hrun
    · exact (reached_scanList hsettles table.rows
        ⟨htable₁, _, Progress.start table _ _ fun r hr => .inl hr⟩ (fun r hr => hr) table.inOrder
        (fun _ _ _ hfalse => hfalse.elim) hrun).2
    · rw [List.range_eq_range'] at hrun
      obtain ⟨-, w, hw⟩ := reached_scanPages hsettles 0 table.pageCount
        ⟨htable₁, _, Progress.start table _ _ fun r _ => Nat.zero_le _⟩ hrun
      refine ⟨w, hw.congr (fun r hr _ => ?_) fun r hfalse => hfalse.elim⟩
      have hlt := table.inPages r hr
      exact iff_false_intro (by omega)

end Scan

/-! ## Rows touched once -/

section Once

variable {table u : StoredTable} {newValues : List Value → Except QueryError (List Value)}
  {matched : TableRow → Bool} {vs : List Visit} {place : TableRow → TableRow}

/-- What a row holds that is assigned its new values. -/
def afterUpdate (table : StoredTable) (newValues : List Value → Except QueryError (List Value))
    (r : TableRow) : List Value :=
  (assignedValues table newValues r).getD r.values

/-- From `table` to `u`, each row that matched has been assigned its new values and counted, and
the others are as they were. A row may be in another place then. -/
structure TouchedOnce (table u : StoredTable) (matched : TableRow → Bool)
    (newValues : List Value → Except QueryError (List Value)) (rowCount : Nat) : Prop where
  assigned : (u.rows.map TableRow.values).Perm
    (table.rows.map fun r => if matched r then afterUpdate table newValues r else r.values)
  others : ∀ r ∈ table.rows, matched r = false → r ∈ u.rows
  counted : rowCount = table.rows.countP matched

/-- The storage takes the update of each row, and reports as many updates of rows of the table as
failed as it reports updates as made of rows that it has moved before. -/
structure EachVisitOnce (table : StoredTable)
    (newValues : List Value → Except QueryError (List Value)) (vs : List Visit) : Prop where
  written : ∀ v ∈ vs, v.row ∈ table.rows → v.written = false →
    afterUpdate table newValues v.row = v.row.values
  counted : vs.countP (fun v => v.row ∈ table.rows ∧ v.counted = false) =
    vs.countP fun v => v.row ∉ table.rows ∧ v.counted = true

instance : Decidable (EachVisitOnce table newValues vs) :=
  decidable_of_iff
    ((∀ v ∈ vs, v.row ∈ table.rows → v.written = false →
      afterUpdate table newValues v.row = v.row.values) ∧
        vs.countP (fun v => v.row ∈ table.rows ∧ v.counted = false) =
          vs.countP fun v => v.row ∉ table.rows ∧ v.counted = true)
    ⟨fun h => ⟨h.1, h.2⟩, fun h => ⟨h.written, h.counted⟩⟩

/-- Where one property implies another, and both hold as often, they hold of the same elements. -/
theorem of_countP_eq {α : Type} {p q : α → Bool} {l : List α} (hpq : ∀ a ∈ l, p a → q a)
    (heq : l.countP p = l.countP q) : ∀ a ∈ l, q a → p a := by
  have hfilter : (l.filter q).filter p = l.filter p := by
    rw [List.filter_filter]
    refine List.filter_congr fun a ha => ?_
    rw [Bool.and_eq_left_iff_imp]
    exact hpq a ha
  have hlength : ((l.filter q).filter p).length = (l.filter q).length := by
    rw [hfilter, ← List.countP_eq_length_filter, ← List.countP_eq_length_filter, heq]
  intro a ha hq
  exact List.length_filter_eq_length_iff.mp hlength a (List.mem_filter.mpr ⟨ha, hq⟩)

variable (h : Progress table matched (assignedValues table newValues) (fun _ => False) vs u place)
include h

/-- The visits to rows of the table are to the rows that match. -/
theorem Progress.visits_rows :
    (vs.filter fun v => v.row ∈ table.rows).map Visit.row = table.rows.filter matched := by
  refine InOrder.eq_of_mem_iff ?_ (table.inOrder.filter _) fun r => ?_
  · exact h.inOrder.sublist (List.filter_sublist.map _)
  · simp only [List.mem_map, List.mem_filter, decide_eq_true_iff]
    constructor
    · rintro ⟨v, ⟨hv, hrow⟩, rfl⟩
      exact ⟨hrow, h.visited v hv⟩
    · rintro ⟨hr, hm⟩
      generalize hplace : place r = r' at *
      cases hplace ▸ h.stages r hr with
      | waits hfalse => exact hfalse.elim
      | passed _ hm' => rw [hm] at hm'; cases hm'
      | stays v _ _ hv hrow => exact ⟨v, ⟨hv, hrow ▸ hr⟩, hrow⟩
      | changes v _ _ _ _ hv hrow => exact ⟨v, ⟨hv, hrow ▸ hr⟩, hrow⟩

/-- The visit to a row of the table that matches decides where the row is. -/
theorem Progress.place_of_visit {v : Visit} (hv : v ∈ vs) (hr : v.row ∈ table.rows)
    (hw : v.written = false) : place v.row = v.row := by
  have hnodup : (vs.map Visit.row).Nodup :=
    List.Nodup.of_map TableRow.recordId
      (List.pairwise_map.mpr (h.inOrder.imp RecordId.ne_of_precedes))
  generalize hplace : place v.row = r' at *
  cases hplace ▸ h.stages v.row hr with
  | waits => rfl
  | passed => rfl
  | stays => rfl
  | changes v' _ _ _ _ hv' hrow hw' =>
    rw [List.inj_on_of_nodup_map hnodup hv' hv hrow, hw] at hw'
    cases hw'

theorem Progress.counted_iff :
    countedVisits vs = table.rows.countP matched ↔
      vs.countP (fun v => v.row ∈ table.rows ∧ v.counted = false) =
        vs.countP fun v => v.row ∉ table.rows ∧ v.counted = true := by
  have hmatched : table.rows.countP matched = vs.countP fun v => v.row ∈ table.rows := by
    rw [List.countP_eq_length_filter, ← h.visits_rows, List.length_map,
      List.countP_eq_length_filter]
  have hcounted := List.countP_eq_countP_filter_add vs Visit.counted fun v => v.row ∈ table.rows
  have hrows := List.countP_eq_countP_filter_add vs (fun v => v.row ∈ table.rows) Visit.counted
  simp only [List.countP_filter] at hcounted hrows
  have hfailed : vs.countP (fun v => v.row ∈ table.rows ∧ v.counted = false) =
      vs.countP fun v => decide (v.row ∈ table.rows) && !v.counted :=
    List.countP_congr fun v _ => by simp
  have hagain : vs.countP (fun v => v.row ∉ table.rows ∧ v.counted = true) =
      vs.countP fun v => v.counted && !decide (v.row ∈ table.rows) :=
    List.countP_congr fun v _ => by simp [and_comm]
  have hboth : vs.countP (fun v => v.counted && decide (v.row ∈ table.rows)) =
      vs.countP fun v => decide (v.row ∈ table.rows) && v.counted :=
    List.countP_congr fun v _ => by rw [Bool.and_comm]
  rw [countedVisits, hmatched, hfailed, hagain]
  omega

variable (hsettles : Settles table newValues)
include hsettles

omit h in
theorem not_unsettled_afterUpdate {r : TableRow}
    (hne : unsettled table newValues ⟨r.recordId, afterUpdate table newValues r⟩ = true) :
    afterUpdate table newValues r = r.values := by
  rw [afterUpdate, assignedValues] at hne ⊢
  cases hnew : newValues r.values with
  | error e => rfl
  | ok values =>
    rw [hnew] at hne
    exact absurd hne (Bool.eq_false_iff.mp (not_unsettled hsettles hnew r.recordId))

theorem Progress.assigned_iff :
    (u.rows.map TableRow.values).Perm
        (table.rows.map fun r => if matched r then afterUpdate table newValues r else r.values) ↔
      ∀ v ∈ vs, v.row ∈ table.rows → v.written = false →
        afterUpdate table newValues v.row = v.row.values := by
  have hvalues : (u.rows.map TableRow.values).Perm
      (table.rows.map fun r => (place r).values) := by
    have hmap := h.rows.map TableRow.values
    rwa [List.map_map] at hmap
  constructor
  · intro hperm v hv hr hw
    -- a row that is not written and would change is one unsettled row too many
    let p : List Value → Bool := fun values => unsettled table newValues ⟨v.row.recordId, values⟩
    have hcount := (hvalues.symm.trans hperm).countP_eq p
    rw [List.countP_map, List.countP_map] at hcount
    have hle : ∀ r ∈ table.rows,
        (p ∘ fun r => if matched r then afterUpdate table newValues r else r.values) r →
          (p ∘ fun r => (place r).values) r := by
      intro r hr hp
      simp only [Function.comp_apply] at hp ⊢
      generalize hplace : place r = r' at *
      cases hplace ▸ h.stages r hr with
      | waits hfalse => exact hfalse.elim
      | passed _ hm => rwa [if_neg (Bool.eq_false_iff.mp hm)] at hp
      | stays w _ hm =>
        rw [if_pos hm] at hp
        have hsame := not_unsettled_afterUpdate hsettles hp
        rwa [hsame] at hp
      | changes w id values _ hm _ _ _ htarget =>
        rw [if_pos hm, afterUpdate, htarget] at hp
        exact hp
    by_contra hne
    refine hne (not_unsettled_afterUpdate hsettles ?_)
    have hall := of_countP_eq hle hcount.symm v.row hr
    simp only [Function.comp_apply, h.place_of_visit hv hr hw, if_pos (h.visited v hv)] at hall
    refine hall ?_
    show unsettled table newValues _ = true
    rw [afterUpdate, assignedValues] at hne
    rw [unsettled]
    cases hnew : newValues v.row.values with
    | error e =>
      rw [hnew] at hne
      exact absurd rfl hne
    | ok values =>
      rw [hnew] at hne
      exact decide_eq_true hne
  · intro hwritten
    refine hvalues.trans (List.Perm.of_eq (List.map_congr_left fun r hr => ?_))
    generalize hplace : place r = r' at *
    cases hplace ▸ h.stages r hr with
    | waits hfalse => exact hfalse.elim
    | passed _ hm => rw [if_neg (Bool.eq_false_iff.mp hm)]
    | stays v _ hm hv hrow hw =>
      subst hrow
      rw [if_pos hm, hwritten v hv hr hw]
    | changes v id values _ hm _ _ _ htarget =>
      rw [if_pos hm, afterUpdate, htarget]
      rfl

theorem Progress.touchedOnce_iff :
    TouchedOnce table u matched newValues (countedVisits vs) ↔ EachVisitOnce table newValues vs := by
  have hothers : ∀ r ∈ table.rows, matched r = false → r ∈ u.rows := by
    intro r hr hm
    rw [h.rows.mem_iff, List.mem_map]
    refine ⟨r, hr, ?_⟩
    generalize hplace : place r = r' at *
    cases hplace ▸ h.stages r hr with
    | waits => rfl
    | passed => rfl
    | stays => rfl
    | changes _ _ _ _ hm' => rw [hm] at hm'; cases hm'
  constructor
  · intro honce
    exact ⟨(h.assigned_iff hsettles).mp honce.assigned, h.counted_iff.mp honce.counted⟩
  · intro honce
    exact ⟨(h.assigned_iff hsettles).mpr honce.written, hothers, h.counted_iff.mpr honce.counted⟩

end Once

/-! ## Statements -/

section Statements

variable (parser : ValueParser) (command name : String) (condition : Option QueryCondition)
  (clause : SetClause)

/-- From `db` to `t`, an `UPDATE` has touched each matching row once, and says so. -/
def TouchesOnce (db t : Database) (rowCount : Nat) : Prop :=
  ∃ table u newValues, db.tables name = some table ∧ t.tables name = some u ∧
    clause.newValues parser command table.schema = .ok newValues ∧
      TouchedOnce table u (matchesRow parser table.schema condition) newValues rowCount

/-- In its visits, an `UPDATE` that starts in `db` touches each matching row once. -/
def VisitsOnce (db : Database) : Prop :=
  ∃ table newValues, db.tables name = some table ∧
    clause.newValues parser command table.schema = .ok newValues ∧
      EachVisitOnce table newValues (visits parser command name condition clause db)

variable {parser command name condition clause}

theorem SetClause.settles {schema : Schema} {table : StoredTable} (hschema : schema = table.schema)
    {newValues : List Value → Except QueryError (List Value)}
    (hnew : clause.newValues parser command schema = .ok newValues) : Settles table newValues := by
  cases clause with
  | wholeRow valuesText =>
    rw [SetClause.newValues] at hnew
    cases hrow : parseRow parser schema valuesText (tokenPosition command valuesText) with
    | error e =>
      rw [hrow] at hnew
      cases hnew
    | ok values =>
      rw [hrow] at hnew
      cases hnew
      intro _ first hfirst again hagain
      cases hfirst
      cases hagain
      rfl
  | assigned assignments =>
    rw [SetClause.newValues] at hnew
    split at hnew
    · cases hnew
    · cases hnew
      rw [hschema]
      exact settles_assignValues parser command table assignments

/-- An `UPDATE` that returns a result has come to the end of its scan. -/
theorem reached_of_ok {db t : Database} {result : QueryResult}
    (hok : (clause.statement name condition).run parser command db = (.ok result, t)) :
    ∃ table u newValues, db.tables name = some table ∧
      clause.newValues parser command table.schema = .ok newValues ∧
      Reached parser name condition table newValues (fun _ => False)
        (visits parser command name condition clause db) t u ∧
      result.rowCount = countedVisits (visits parser command name condition clause db) := by
  rw [run_updateStatement] at hok
  obtain ⟨⟨done, vs⟩, s, hvisits, hresult⟩ := Prog.bind_eq_ok hok
  have hvs : visits parser command name condition clause db = vs := by rw [visits, hvisits]
  rw [hvs]
  cases done with
  | false => cases hresult
  | true =>
    cases hresult
    obtain ⟨schema, s₁, hload, hrun⟩ := Prog.bind_eq_ok hvisits
    have hsame : s₁.tables = db.tables := by
      have h := leavesTables_loadSchema (ε := QueryError) name db
      rwa [hload] at h
    obtain ⟨locked, s₂, hlock, hschema⟩ := Prog.bind_eq_ok hload
    cases locked with
    | false =>
      cases hschema
      cases hrun
    | true =>
      simp only [not_true_eq_false, if_false] at hschema
      rw [Prog.bind_ok (Prog.get_apply s₂)] at hschema
      cases hschema
      rw [hsame] at hrun
      cases htable : db.tables name with
      | none =>
        rw [htable] at hrun
        cases hrun
      | some table =>
        rw [htable] at hrun
        simp only [Option.map_some] at hrun
        cases hnew : clause.newValues parser command table.schema with
        | error e =>
          rw [hnew] at hrun
          cases hrun
        | ok newValues =>
          rw [hnew] at hrun
          obtain ⟨u, hu⟩ := reached_scanRows (SetClause.settles rfl hnew)
            (by rw [hsame, htable]) hrun
          exact ⟨table, u, newValues, rfl, hnew, hu, rfl⟩

end Statements

/-! ## A row that grows -/

/-- The parser of the source. -/
def sourceParser : ValueParser where
  parseValue := ValueParser.parseValueWithError
  splitCsv := ValueParser.splitCsvWithPositions

/-- Two rows fill a page, up to six bytes. -/
def notesSchema : Schema where
  tableName := "notes"
  columns :=
    [{ name := "note", type := .varstring, nullable := false, maxSize := 8, precision := 0, scale := 0 },
      { name := "a", type := .string, nullable := false, maxSize := 1024, precision := 0, scale := 0 },
      { name := "b", type := .string, nullable := false, maxSize := 1005, precision := 0, scale := 0 }]
  constraints := []
  indexes := []
  storageMode := .disk
  nameValid := by decide
  columnsValid := by decide
  constraintsValid := by decide
  indexesValid := by decide

/-- The rows of the first page; the second page is empty. -/
def notesRows : List TableRow :=
  [⟨⟨0, 0⟩, [.varstring [120], .string [], .string []]⟩,
    ⟨⟨0, 1⟩, [.varstring [121], .string [], .string []]⟩]

def notesTable : StoredTable where
  schema := notesSchema
  pageCount := 2
  rows := notesRows
  inOrder := by unfold InOrder notesRows; decide
  inPages := by unfold notesRows; decide

/-- The first row does not fit on its page any more when it grows, the second does then. -/
def notesDatabase : Database where
  tables := Function.update (fun _ => none) "notes" (some notesTable)
  inTransaction := false
  transactionAborted := false
  activeTableLocks := fun _ => none
  answers := [.done ⟨1, 0⟩, .done ⟨0, 1⟩, .done ⟨1, 0⟩]
  events := []

end ScratchDb
