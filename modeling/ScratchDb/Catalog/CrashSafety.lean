import Mathlib.Data.List.Induction
import ScratchDb.Catalog.CatalogCalls

/-!
# The catalog survives crashes

Every call of the catalog keeps the files in agreement with the view of its
client, at each of its steps. The program may be killed and the machine may lose
power at any moment, any number of times: what a table is loaded as afterwards
is the schema of the last call that returned true for it, or of a later one that
did not come to its end, and never a mixture or a torn text.
-/

namespace ScratchDb

open DurableFiles DurableFiles.Files Passage

namespace Catalog

variable {fs gs : CatalogFiles} {k : CatalogView}

/-! ## Views before and after a call -/

theorem Agrees.may (h : Agrees fs k) (database table : String) (o : Option Schema) :
    Agrees fs (k.may database table o) := by
  refine h.mono (fun d t o' ho' => ?_) (fun _ hd => hd)
  simp only [CatalogView.may]
  split
  · exact List.mem_cons_of_mem _ ho'
  · exact ho'

theorem mem_may (k : CatalogView) (database table : String) (o : Option Schema) :
    o ∈ (k.may database table o).possible database table := by
  simp [CatalogView.may]

theorem Agrees.attempt (h : Agrees fs k) (op : Operation) : Agrees fs (k.attempt op) := by
  cases op with
  | createDatabase database a => exact h
  | dropDatabase database a =>
    refine h.mono (fun d t o ho => ?_) (fun d hd => ?_)
    · simp only [CatalogView.attempt]
      split
      · exact List.mem_cons_of_mem _ ho
      · exact ho
    · by_cases hne : d = database
      · subst hne
        simp [CatalogView.attempt] at hd
      · simpa only [CatalogView.attempt, Function.update_of_ne hne] using hd
  | createTable database schema a => exact h.may _ _ _
  | dropTable database table a => exact h.may _ _ _
  | replaceTableSchema database schema a => exact h.may _ _ _

/-- Where the database is on disk, the new possibility is what every snapshot shows. -/
theorem Agrees.has {database table : String} {o : Option Schema}
    (h : Agrees fs (k.may database table o))
    (htext : k.settled database = true → ∀ s, fs.Snapshot s →
      tableText s fs.content database table = textOf o) : Agrees fs (k.has database table o) := by
  rw [CatalogView.has]
  split
  · rename_i hsettled
    refine { h with texts := fun s hs database' table' => ?_ }
    by_cases hkey : database' = database ∧ table' = table
    · obtain ⟨rfl, rfl⟩ := hkey
      exact ⟨o, by simp, htext hsettled s hs⟩
    · obtain ⟨o', ho', htext'⟩ := h.texts s hs database' table'
      rw [CatalogView.may] at ho'
      simp only [if_neg hkey] at ho' ⊢
      exact ⟨o', ho', htext'⟩
  · exact h

/-- A database that is on disk is the same directory in every snapshot. -/
theorem Agrees.database_eq {database : String} {d : Nat} (h : Agrees fs k)
    (hsettled : k.settled database = true)
    (hcurrent : (fs.current 0).lookup database = some (.directory d)) :
    ∀ v ∈ fs.versions 0, v.lookup database = some (.directory d) := by
  obtain ⟨d', hall⟩ := h.onDisk database hsettled
  intro v hv
  rw [hall v hv, ← hall _ List.mem_cons_self, hcurrent]

/-- A table whose directory every version of the database has, and whose files are written. -/
theorem Agrees.text_of_written {database table : String} {d t j : Nat} {schema : Schema}
    (h : Agrees fs k) (hsettled : k.settled database = true)
    (hlocated : Located fs database table d t)
    (hall : ∀ v ∈ fs.versions d, v.lookup table = some (.directory t))
    (hfile : (fs.current t).lookup tableFile = some (.file j)) (hwritten : Written fs t schema)
    (s : Nat → Version String) (hs : fs.Snapshot s) :
    tableText s fs.content database table = textOf (some schema) := by
  obtain ⟨i, hi, htext⟩ := hwritten.schemaFile
  have hst : s t = fs.current t := by
    have ht := hs t
    rwa [hwritten.versions, List.mem_singleton] at ht
  rw [textOf, Option.map_some, ← htext]
  exact tableText_eq_some.mpr ⟨d, t, j, i, h.database_eq hsettled hlocated.database _ (hs 0),
    hall _ (hs d), hst ▸ hfile, hst ▸ hi, rfl⟩

/-! ## The operations -/

theorem createDirectoryDurable_throughout (h : Agrees fs k) {d : Nat} (hd : d < fs.next)
    (name : String) (a : DirectoryAnswers) :
    Throughout (Agrees · k) (createDirectoryDurable d name a) fs fun r gs =>
      Agrees gs k ∧ SameBut fs gs d ∧ (r = .ok true → gs.versions d = [gs.current d] ∧
        (gs.current d).lookup name = some (.directory fs.next) ∧
        ∀ v ∈ gs.versions fs.next, ∀ other, v.lookup other = none) := by
  rw [createDirectoryDurable]
  refine throughout_look_bind ?_
  split
  · exact throughout_pure ⟨h, SameBut.refl fs d, fun heq => by cases heq⟩
  · rename_i hnew
    rw [Bool.not_eq_true, Bool.or_eq_false_iff] at hnew
    have hfree : (fs.current d).lookup name = none := Option.isNone_iff_eq_none.mp (by
      simpa using hnew.1)
    have hmade := h.makeDirectory hd hfree
    have hsame : SameBut fs (fs.makeDirectory d name) d := sameBut_enter fs d _
    refine throughout_step_bind hmade ?_
    refine (fsyncDirectory_throughout hmade d a.parent).mono ?_
    rintro r gs ⟨hagrees, hcurrent, hsame', -, -, hsynced⟩
    refine ⟨hagrees, hsame.trans hsame', fun htrue => ⟨hsynced htrue, ?_, ?_⟩⟩
    · rw [hcurrent]
      change (Function.update fs.current d _ d).lookup name = _
      rw [Function.update_self, AList.lookup_insert]
    · intro v hv other
      rw [(hsame.trans hsame').versions (Nat.ne_of_gt hd)] at hv
      exact h.wellFormed.lookup_unborn le_rfl hv other

theorem createDatabase_throughout (h : Agrees fs k) (database : String) (a : DirectoryAnswers) :
    Throughout (Agrees · k) (Catalog.createDatabase database a) fs fun r gs =>
      r = .ok true → Agrees gs (k.acknowledge (.createDatabase database a)) := by
  rw [Catalog.createDatabase]
  split
  swap
  · exact throughout_pure fun heq => by cases heq
  refine (createDirectoryDurable_throughout h h.wellFormed.rootFree database a).mono ?_
  rintro r gs ⟨hagrees, -, hmade⟩ htrue
  obtain ⟨hversions, hlookup, hempty⟩ := hmade htrue
  refine { hagrees with texts := fun s hs database' table => ?_, onDisk := fun database' hd => ?_ }
  · by_cases hne : database' = database
    · subst hne
      refine ⟨none, by simp [CatalogView.acknowledge], ?_⟩
      rcases htext : tableText s gs.content database' table with _ | text
      · rfl
      · -- the directory of the database is new
        obtain ⟨d, t, _, _, hd, ht, -⟩ := tableText_eq_some.mp htext
        have hs0 := hs 0
        rw [hversions, List.mem_singleton] at hs0
        rw [hs0, hlookup, Option.some_inj, Node.directory.injEq] at hd
        subst hd
        rw [hempty _ (hs fs.next)] at ht
        cases ht
    · simp only [CatalogView.acknowledge, if_neg hne]
      exact hagrees.texts s hs database' table
  · by_cases hne : database' = database
    · subst hne
      refine ⟨fs.next, fun v hv => ?_⟩
      rw [hversions, List.mem_singleton] at hv
      rw [hv, hlookup]
    · simp only [CatalogView.acknowledge, Function.update_of_ne hne] at hd
      exact hagrees.onDisk database' hd

theorem dropDatabase_throughout (h : Agrees fs k) (database : String) (a : RemoveAnswers) :
    Throughout (Agrees · (k.attempt (.dropDatabase database a))) (Catalog.dropDatabase database a) fs
      fun r gs => r = .ok true → Agrees gs (k.acknowledge (.dropDatabase database a)) := by
  have hk := h.attempt (.dropDatabase database a)
  rw [Catalog.dropDatabase]
  refine throughout_look_bind ?_
  split
  · exact throughout_pure fun heq => by cases heq
  have hexpendable : Expendable fs (k.attempt (.dropDatabase database a)) 0 database := by
    refine ⟨fun database' table hthrough => ?_, fun _ => Function.update_self ..⟩
    rcases hthrough with ⟨-, rfl⟩ | ⟨hroot, -⟩ | ⟨d, hplace, -⟩
    · simp [CatalogView.attempt]
    · exact absurd hroot (h.wellFormed.noRoot _ _)
    · exact absurd hplace.2 (h.wellFormed.noRoot _ _)
  refine (removeDurable_throughout hk hexpendable a).mono ?_
  rintro r gs ⟨hagrees, -, hgone⟩ htrue
  obtain ⟨hversions, hlookup⟩ := hgone htrue
  refine { hagrees with texts := fun s hs database' table => ?_ }
  by_cases hne : database' = database
  · subst hne
    refine ⟨none, by simp [CatalogView.acknowledge], ?_⟩
    rcases htext : tableText s gs.content database' table with _ | text
    · rfl
    · obtain ⟨d, _, _, _, hd, -⟩ := tableText_eq_some.mp htext
      have hs0 := hs 0
      rw [hversions, List.mem_singleton] at hs0
      rw [hs0, hlookup] at hd
      cases hd
  · obtain ⟨o, ho, htext⟩ := hagrees.texts s hs database' table
    simp only [CatalogView.attempt, if_neg hne] at ho
    simp only [CatalogView.acknowledge, if_neg hne]
    exact ⟨o, ho, htext⟩

theorem cleanupTableDir_throughout (h : Agrees fs k) {d : Nat} {table : String}
    (hexpendable : Expendable fs k d table) (a : RemoveAnswers) :
    Throughout (Agrees · k) (cleanupTableDir d table a) fs fun r _ => r ≠ .ok true := by
  rw [cleanupTableDir]
  refine throughout_bind (removeAll_throughout h hexpendable a) ?_ ?_
  · rintro removed fs₁ ⟨h₁, -⟩
    cases removed with
    | false => exact throughout_stop (by simp)
    | true =>
      refine throughout_bind (fsyncDirectory_throughout h₁ d a.parent) ?_ ?_
      · intro _ _ _
        exact throughout_pure (by simp)
      · intro e gs _
        simp
  · intro e gs _
    simp

/-- The entry of a table in its database. -/
theorem expendable_table {database table : String} {d : Nat} (hwf : fs.WellFormed)
    (hd : fs.Mentions 0 database (.directory d)) (hnone : none ∈ k.possible database table) :
    Expendable fs k d table := by
  have hd0 : d ≠ 0 := by
    rintro rfl
    exact hwf.noRoot _ _ hd
  refine ⟨fun database' table' hthrough => ?_, fun h0 => absurd h0 hd0⟩
  rcases hthrough with ⟨h0, -⟩ | ⟨hd', rfl⟩ | ⟨d', hplace, -⟩
  · exact absurd h0 hd0
  · obtain ⟨-, rfl⟩ := hwf.directoryPlace _ _ _ _ _ hd hd'
    exact hnone
  · exact absurd hd (hplace.not_database hwf)

theorem createTableFiles_throughout (h : Agrees fs k) {database : String} {d t : Nat}
    {schema : Schema} (hlocated : Located fs database schema.tableName d t)
    (hall : ∀ w ∈ fs.versions d, w.lookup schema.tableName = some (.directory t))
    (hschema : (fs.current t).lookup schemaFile = none)
    (hnone : none ∈ k.possible database schema.tableName)
    (hmay : some schema ∈ k.possible database schema.tableName) (a : CreateTableAnswers) :
    Throughout (Agrees · k) (createTableFiles d t schema a) fs fun r gs =>
      r = .ok true → Agrees gs k ∧ SameBut fs gs t ∧ Written gs t schema ∧
        ∃ j, (gs.current t).lookup tableFile = some (.file j) := by
  have hfailed : ∀ {gs}, Agrees gs k → SameBut fs gs t →
      Throughout (Agrees · k) (cleanupTableDir d schema.tableName a.cleanup) gs fun r hs =>
        r = .ok true → Agrees hs k ∧ SameBut fs hs t ∧ Written hs t schema ∧
          ∃ j, (hs.current t).lookup tableFile = some (.file j) := by
    intro gs hagrees hsame
    have hplace := (hlocated.of_sameBut h.wellFormed hsame).place
    refine (cleanupTableDir_throughout hagrees
      (expendable_table hagrees.wellFormed hplace.1 hnone) a.cleanup).mono ?_
    intro r hs hresult htrue
    exact absurd htrue hresult
  rw [createTableFiles]
  refine throughout_bind
    (createEmptyFileDurable_throughout h hlocated hall hschema hnone a.tableFile) ?_ ?_
  · rintro created fs₁ ⟨h₁, hsame₁, hfile₁⟩
    cases created with
    | false => exact hfailed h₁ hsame₁
    | true =>
      obtain ⟨j, hj⟩ := hfile₁ rfl
      refine throughout_bind (writeSchemaFile_throughout h₁
        (hlocated.of_sameBut h.wellFormed hsame₁) hmay a.schemaFile) ?_ ?_
      · rintro written fs₂ ⟨h₂, hsame₂, htable₂, hwritten₂⟩
        cases written with
        | false => exact hfailed h₂ (hsame₁.trans hsame₂)
        | true =>
          exact throughout_pure fun _ =>
            ⟨h₂, hsame₁.trans hsame₂, hwritten₂ rfl, j, htable₂.trans hj⟩
      · intro e gs _ heq
        cases heq
  · intro e gs _ heq
    cases heq

theorem createTable_throughout (h : Agrees fs k) (database : String) (schema : Schema)
    (a : CreateTableAnswers) :
    Throughout (Agrees · (k.attempt (.createTable database schema a)))
      (Catalog.createTable database schema a) fs
      fun r gs => r = .ok true → Agrees gs (k.acknowledge (.createTable database schema a)) := by
  have hk := h.attempt (.createTable database schema a)
  rw [Catalog.createTable]
  refine throughout_look_bind ?_
  split
  · exact throughout_pure fun heq => by cases heq
  rename_i d hdatabase
  rw [databaseDirectory, directoryIn_eq_some] at hdatabase
  split
  · exact throughout_pure fun heq => by cases heq
  rename_i hnew
  rw [Bool.not_eq_true, Bool.or_eq_false_iff] at hnew
  have hfree : (fs.current d).lookup schema.tableName = none := Option.isNone_iff_eq_none.mp (by
    simpa using hnew.2)
  have hmention := mentions_current hdatabase
  have hd0 : d ≠ 0 := by
    rintro rfl
    exact h.wellFormed.noRoot _ _ hmention
  have hborn : d < fs.next := (h.wellFormed.born _ _ _ hmention).2
  -- the table is not there now, so the view knows that it may not exist
  have hnone : none ∈ (k.attempt (.createTable database schema a)).possible database
      schema.tableName := by
    obtain ⟨o, ho, htext⟩ := hk.texts fs.current (snapshot_current fs) database schema.tableName
    have hmissing : tableText fs.current fs.content database schema.tableName = none := by
      rcases htable : tableText fs.current fs.content database schema.tableName with _ | text
      · rfl
      · obtain ⟨d', t, _, _, hd', ht, -⟩ := tableText_eq_some.mp htable
        rw [hdatabase, Option.some_inj, Node.directory.injEq] at hd'
        subst hd'
        rw [hfree] at ht
        cases ht
    rw [hmissing] at htext
    cases o with
    | none => exact ho
    | some schema => cases htext
  refine throughout_bind (createDirectoryDurable_throughout hk hborn schema.tableName a.directory)
    ?_ ?_
  swap
  · intro e gs _ heq
    cases heq
  rintro made fs₁ ⟨h₁, hsame₁, hmade₁⟩
  cases made with
  | false => exact throughout_pure fun heq => by cases heq
  | true =>
    obtain ⟨hversions₁, htable₁, hempty₁⟩ := hmade₁ rfl
    have hlocated₁ : Located fs₁ database schema.tableName d fs.next :=
      ⟨(hsame₁ 0 hd0.symm).1 ▸ hdatabase, htable₁⟩
    have hall₁ : ∀ w ∈ fs₁.versions d, w.lookup schema.tableName = some (.directory fs.next) := by
      intro w hw
      rw [hversions₁, List.mem_singleton] at hw
      exact hw ▸ htable₁
    refine (createTableFiles_throughout h₁ hlocated₁ hall₁ (hempty₁ _ List.mem_cons_self _) hnone
      (mem_may k database schema.tableName (some schema)) a).mono ?_
    intro r gs hdone htrue
    obtain ⟨hagrees, hsame, hwritten, j, hfile⟩ := hdone htrue
    refine hagrees.has fun hsettled => hagrees.text_of_written hsettled
      (hlocated₁.of_sameBut h₁.wellFormed hsame) (fun v hv => ?_) hfile hwritten
    rw [hsame.versions (Nat.ne_of_lt hborn)] at hv
    exact hall₁ v hv

theorem dropTable_throughout (h : Agrees fs k) (database table : String) (a : RemoveAnswers) :
    Throughout (Agrees · (k.attempt (.dropTable database table a)))
      (Catalog.dropTable database table a) fs
      fun r gs => r = .ok true → Agrees gs (k.acknowledge (.dropTable database table a)) := by
  have hk := h.attempt (.dropTable database table a)
  rw [Catalog.dropTable]
  refine throughout_look_bind ?_
  split
  · exact throughout_pure fun heq => by cases heq
  rename_i d hdatabase
  rw [databaseDirectory, directoryIn_eq_some] at hdatabase
  split
  · exact throughout_pure fun heq => by cases heq
  have hexpendable : Expendable fs (k.attempt (.dropTable database table a)) d table :=
    expendable_table h.wellFormed (mentions_current hdatabase) (mem_may k database table none)
  refine (removeDurable_throughout hk hexpendable a).mono ?_
  rintro r gs ⟨hagrees, hmentions, hgone⟩ htrue
  obtain ⟨hversions, hlookup⟩ := hgone htrue
  refine hagrees.has fun hsettled s hs => ?_
  rcases htext : tableText s gs.content database table with _ | text
  · rfl
  · obtain ⟨d', t, _, _, hd', ht, -⟩ := tableText_eq_some.mp htext
    -- removing brings no entry, so this is the database of before
    obtain ⟨v, hv, hvd⟩ := hmentions _ _ _ (mentions_of_snapshot hs hd')
    rw [hk.database_eq hsettled hdatabase v hv, Option.some_inj, Node.directory.injEq] at hvd
    subst hvd
    have hsd := hs d
    rw [hversions, List.mem_singleton] at hsd
    rw [hsd, hlookup] at ht
    cases ht

theorem replaceTableSchema_throughout (h : Agrees fs k) (database : String) (schema : Schema)
    (a : SchemaFileAnswers) :
    Throughout (Agrees · (k.attempt (.replaceTableSchema database schema a)))
      (Catalog.replaceTableSchema database schema a) fs
      fun r gs => r = .ok true → Agrees gs (k.acknowledge (.replaceTableSchema database schema a)) := by
  have hk := h.attempt (.replaceTableSchema database schema a)
  rw [Catalog.replaceTableSchema]
  refine throughout_look_bind ?_
  split
  · exact throughout_pure fun heq => by cases heq
  rename_i t htable
  split
  · exact throughout_pure fun heq => by cases heq
  rename_i hexists
  rw [Bool.not_eq_true, Bool.not_eq_false', tableExists, Option.isSome_iff_exists] at hexists
  obtain ⟨text, htext⟩ := hexists
  obtain ⟨d, t', j, i, hd, ht, hj, -⟩ := tableText_eq_some.mp htext
  rw [tableDirectory, databaseDirectory, Option.bind_eq_some_iff] at htable
  obtain ⟨d', hd', ht'⟩ := htable
  rw [directoryIn_eq_some] at hd' ht'
  rw [hd, Option.some_inj, Node.directory.injEq] at hd'
  subst hd'
  rw [ht, Option.some_inj, Node.directory.injEq] at ht'
  subst ht'
  have hlocated : Located fs database schema.tableName d t' := ⟨hd, ht⟩
  refine (writeSchemaFile_throughout hk hlocated
    (mem_may k database schema.tableName (some schema)) a).mono ?_
  rintro r gs ⟨hagrees, hsame, hfile, hwritten⟩ htrue
  refine hagrees.has fun hsettled => hagrees.text_of_written hsettled
    (hlocated.of_sameBut h.wellFormed hsame) (fun v hv => ?_) (hfile.trans hj) (hwritten htrue)
  rw [hsame.versions (hlocated.place.ne_zero h.wellFormed).2.2.symm] at hv
  exact h.anchored d schema.tableName t' j ht hj v hv

/-- What a call does to a view, at each of its steps and at its end. -/
theorem operation_throughout (h : Agrees fs k) (op : Operation) :
    Throughout (Agrees · (k.attempt op)) op.program fs fun r gs =>
      r = .ok true → Agrees gs (k.acknowledge op) := by
  cases op with
  | createDatabase database a => exact createDatabase_throughout h database a
  | dropDatabase database a => exact dropDatabase_throughout h database a
  | createTable database schema a => exact createTable_throughout h database schema a
  | dropTable database table a => exact dropTable_throughout h database table a
  | replaceTableSchema database schema a => exact replaceTableSchema_throughout h database schema a

/-! ## Runs with crashes -/

/-- The view after an event; nothing changes where nothing was done. -/
def Event.known (fs : CatalogFiles) (k : CatalogView) : Event → CatalogView
  | .call op =>
    if op.acknowledged fs then k.acknowledge op
    else if (op.passed fs).isEmpty then k
    else k.attempt op
  | .killed op missing => if ((op.passed fs).drop missing).isEmpty then k else k.attempt op
  | .powerLoss _ _ => k

/-- The files and the view after some events. -/
def afterEvents : List Event → CatalogFiles × CatalogView :=
  List.foldl (fun p e => (e.next p.1, e.known p.1 p.2)) (Files.empty, CatalogView.initial)

theorem afterEvents_concat (events : List Event) (e : Event) :
    afterEvents (events ++ [e]) = (e.next (afterEvents events).1,
      e.known (afterEvents events).1 (afterEvents events).2) := by
  rw [afterEvents, List.foldl_append]
  rfl

theorem Agrees.next (h : Agrees fs k) (e : Event) : Agrees (e.next fs) (e.known fs k) := by
  cases e with
  | call op =>
    obtain ⟨hpassed, hend, hnone⟩ := (operation_throughout h op).run
    have hnow : (op.passed fs).headD fs = (op.program ⟨fs, []⟩).2.now := by
      rcases hnil : op.passed fs with _ | ⟨gs, rest⟩
      · exact (hnone hnil).symm
      · rw [Passage.now]
        change gs = (op.passed fs).headD _
        rw [hnil]
        rfl
    rw [Event.next, Event.known]
    split
    · rename_i htrue
      rw [Operation.acknowledged] at htrue
      split at htrue
      · rename_i result hresult
        rw [hnow]
        exact hend (hresult.trans (congrArg _ htrue))
      · cases htrue
    · rcases hnil : op.passed fs with _ | ⟨gs, rest⟩
      · exact h
      · exact hpassed gs (hnil ▸ List.mem_cons_self : gs ∈ op.passed fs)
  | killed op missing =>
    obtain ⟨hpassed, -, -⟩ := (operation_throughout h op).run
    rw [Event.next, Event.known]
    rcases hnil : (op.passed fs).drop missing with _ | ⟨gs, rest⟩
    · exact h
    · refine hpassed gs (List.mem_of_mem_drop (i := missing) ?_)
      change gs ∈ (op.passed fs).drop missing
      rw [hnil]
      exact List.mem_cons_self
  | powerLoss choice torn => exact h.powerLoss choice torn

theorem afterEvents_agrees (events : List Event) :
    Agrees (afterEvents events).1 (afterEvents events).2 := by
  induction events using List.reverseRecOn with
  | nil => exact Agrees.initial
  | append_singleton events e ih =>
    rw [afterEvents_concat]
    exact ih.next e

/-- What `load_schema` reads where the table is as the possibility says. -/
def readingOf : Option Schema → Except ReadFailure Schema
  | none => .error .nullopt
  | some schema => readSchemaFile (serializeSchema schema.toSchemaParts)

theorem loadSchema_of_agrees (h : Agrees fs k) (database table : String) :
    ∃ o ∈ k.possible database table, loadSchema fs database table = readingOf o := by
  obtain ⟨o, ho, htext⟩ := h.texts _ (snapshot_current fs) database table
  refine ⟨o, ho, ?_⟩
  rw [loadSchema, htext]
  cases o with
  | none => rfl
  | some schema => rfl

/-! ## What was acknowledged stays -/

/-- The schema that a call writes, with its database. -/
def Operation.written : Operation → Option (String × Schema)
  | .createTable database schema _ => some (database, schema)
  | .replaceTableSchema database schema _ => some (database, schema)
  | _ => none

/-- The call is for this table, or for its database. -/
def Operation.touches (database table : String) : Operation → Bool
  | .createDatabase d _ => d = database
  | .dropDatabase d _ => d = database
  | .createTable d schema _ => d = database ∧ schema.tableName = table
  | .dropTable d t _ => d = database ∧ t = table
  | .replaceTableSchema d schema _ => d = database ∧ schema.tableName = table

def Event.touches (database table : String) : Event → Bool
  | .call op => op.touches database table
  | .killed op _ => op.touches database table
  | .powerLoss _ _ => false

/-- The database is on disk, and the table can only have this schema. -/
def CatalogView.Certain (k : CatalogView) (database : String) (schema : Schema) : Prop :=
  k.settled database = true ∧ k.possible database schema.tableName = [some schema]

namespace CatalogView

variable {database table database' table' : String} {schema : Schema} {o : Option Schema}

theorem Certain.may (h : k.Certain database schema)
    (hne : ¬ (database = database' ∧ schema.tableName = table')) :
    (k.may database' table' o).Certain database schema := by
  refine ⟨h.1, ?_⟩
  simp only [CatalogView.may, if_neg hne]
  exact h.2

theorem Certain.has (h : k.Certain database schema)
    (hne : ¬ (database = database' ∧ schema.tableName = table')) :
    (k.has database' table' o).Certain database schema := by
  rw [CatalogView.has]
  split
  · refine ⟨h.1, ?_⟩
    simp only [if_neg hne]
    exact h.2
  · exact h.may hne

theorem certain_has (h : k.settled database = true) :
    (k.has database schema.tableName (some schema)).Certain database schema := by
  rw [CatalogView.has, if_pos h]
  exact ⟨h, by simp⟩

/-- A call for another table leaves it so. -/
theorem Certain.of_untouched {op : Operation} (h : k.Certain database schema)
    (hop : op.touches database schema.tableName = false) :
    (k.attempt op).Certain database schema ∧ (k.acknowledge op).Certain database schema := by
  cases op with
  | createDatabase d a =>
    have hne : database ≠ d := by
      rintro rfl
      simp [Operation.touches] at hop
    refine ⟨h, ?_, ?_⟩
    · simpa only [acknowledge, Function.update_of_ne hne] using h.1
    · simpa only [acknowledge, if_neg hne] using h.2
  | dropDatabase d a =>
    have hne : database ≠ d := by
      rintro rfl
      simp [Operation.touches] at hop
    refine ⟨⟨?_, ?_⟩, ?_, ?_⟩
    · simpa only [attempt, Function.update_of_ne hne] using h.1
    · simpa only [attempt, if_neg hne] using h.2
    · simpa only [acknowledge, Function.update_of_ne hne] using h.1
    · simpa only [acknowledge, if_neg hne] using h.2
  | createTable d schema' a =>
    have hne : ¬ (database = d ∧ schema.tableName = schema'.tableName) := by
      rintro ⟨rfl, heq⟩
      simp [Operation.touches, heq] at hop
    exact ⟨h.may hne, h.has hne⟩
  | dropTable d t a =>
    have hne : ¬ (database = d ∧ schema.tableName = t) := by
      rintro ⟨rfl, rfl⟩
      simp [Operation.touches] at hop
    exact ⟨h.may hne, h.has hne⟩
  | replaceTableSchema d schema' a =>
    have hne : ¬ (database = d ∧ schema.tableName = schema'.tableName) := by
      rintro ⟨rfl, heq⟩
      simp [Operation.touches, heq] at hop
    exact ⟨h.may hne, h.has hne⟩

theorem Certain.known {e : Event} (h : k.Certain database schema)
    (he : e.touches database schema.tableName = false) : (e.known fs k).Certain database schema := by
  cases e with
  | call op =>
    rw [Event.known]
    split
    · exact (h.of_untouched he).2
    · split
      · exact h
      · exact (h.of_untouched he).1
  | killed op missing =>
    rw [Event.known]
    split
    · exact h
    · exact (h.of_untouched he).1
  | powerLoss choice torn => exact h

end CatalogView

/-! A run that creates a table and then loses power. -/

def syncs : SyncAnswers := ⟨true, true⟩

def smoothCreation : CreateTableAnswers where
  directory := ⟨true, syncs⟩
  tableFile := ⟨true, syncs, true, syncs⟩
  schemaFile := ⟨true, [20, 1000], syncs, true, true, syncs⟩
  cleanup := ⟨[], syncs⟩

end Catalog

end ScratchDb
