import ScratchDb.Catalog.CatalogFiles

/-!
# What is known of the tables

The view that a client has of the catalog: for each table the schemas that it may
have after a restart. A call that returns true leaves one of them, a call that
fails or is cut off adds the one it was given. The files agree with such a view
when every snapshot of them shows a schema file that the view allows, and each
step of the catalog keeps this.
-/

namespace ScratchDb

open DurableFiles DurableFiles.Files

namespace Catalog

/-- The databases that are certain to be on disk, and the schemas that a table may have; `none`
stands for no table. -/
structure CatalogView where
  settled : String → Bool
  possible : String → String → List (Option Schema)

namespace CatalogView

def initial : CatalogView := ⟨fun _ => false, fun _ _ => [none]⟩

/-- One more possibility for a table. -/
def may (k : CatalogView) (database table : String) (o : Option Schema) : CatalogView :=
  { k with possible := fun d t =>
      if d = database ∧ t = table then o :: k.possible d t else k.possible d t }

/-- The only possibility, where the database is on disk. -/
def has (k : CatalogView) (database table : String) (o : Option Schema) : CatalogView :=
  if k.settled database then
    { k with possible := fun d t => if d = database ∧ t = table then [o] else k.possible d t }
  else k.may database table o

/-- After a call that did something and did not return true. -/
def attempt (k : CatalogView) : Operation → CatalogView
  | .createDatabase _ _ => k
  | .dropDatabase database _ =>
    { settled := Function.update k.settled database false
      possible := fun d t => if d = database then none :: k.possible d t else k.possible d t }
  | .createTable database schema _ => k.may database schema.tableName (some schema)
  | .dropTable database table _ => k.may database table none
  | .replaceTableSchema database schema _ => k.may database schema.tableName (some schema)

/-- After a call that returned true. -/
def acknowledge (k : CatalogView) : Operation → CatalogView
  | .createDatabase database _ =>
    { settled := Function.update k.settled database true
      possible := fun d t => if d = database then [none] else k.possible d t }
  | .dropDatabase database _ =>
    { settled := Function.update k.settled database false
      possible := fun d t => if d = database then [none] else k.possible d t }
  | .createTable database schema _ => k.has database schema.tableName (some schema)
  | .dropTable database table _ => k.has database table none
  | .replaceTableSchema database schema _ => k.has database schema.tableName (some schema)

end CatalogView

/-- The text of the schema file that a possibility stands for. -/
def textOf (o : Option Schema) : Option (List Char) :=
  o.map fun schema => serializeSchema schema.toSchemaParts

/-! ## Paths of a snapshot -/

/-- Directory `t` is the directory of the table, at some moment since the last syncs. -/
def TablePlace (fs : CatalogFiles) (database table : String) (d t : Nat) : Prop :=
  fs.Mentions 0 database (.directory d) ∧ fs.Mentions d table (.directory t)

/-- The entry may be looked at to find the schema of the table. -/
def Through (fs : CatalogFiles) (e : Nat) (name database table : String) : Prop :=
  e = 0 ∧ name = database ∨
    fs.Mentions 0 database (.directory e) ∧ name = table ∨
    ∃ d, TablePlace fs database table d e ∧ (name = schemaFile ∨ name = tableFile)

section Paths

variable {fs : CatalogFiles} {s : Nat → Version String} {content : Nat → List Char}
  {database table : String}

theorem tableText_eq_some {text : List Char} :
    tableText s content database table = some text ↔
      ∃ d t j i, (s 0).lookup database = some (.directory d) ∧
        (s d).lookup table = some (.directory t) ∧ (s t).lookup tableFile = some (.file j) ∧
        (s t).lookup schemaFile = some (.file i) ∧ content i = text := by
  simp only [tableText, tableDirectory, databaseDirectory, Option.bind_assoc,
    Option.bind_eq_some_iff, Option.map_eq_some_iff, directoryIn_eq_some, fileIn_eq_some]
  constructor
  · rintro ⟨d, hd, t, ht, j, hj, i, hi, htext⟩
    exact ⟨d, t, j, i, hd, ht, hj, hi, htext⟩
  · rintro ⟨d, t, j, i, hd, ht, hj, hi, htext⟩
    exact ⟨d, hd, t, ht, j, hj, i, hi, htext⟩

theorem mentions_of_snapshot (hs : fs.Snapshot s) {d : Nat} {name : String} {x : Node}
    (h : (s d).lookup name = some x) : fs.Mentions d name x :=
  ⟨s d, hs d, h⟩

theorem TablePlace.ne_zero (hwf : fs.WellFormed) {d t : Nat}
    (h : TablePlace fs database table d t) : d ≠ 0 ∧ t ≠ 0 ∧ t ≠ d := by
  obtain ⟨hd, ht⟩ := h
  have hd0 : d ≠ 0 := by
    rintro rfl
    exact hwf.noRoot _ _ hd
  refine ⟨hd0, ?_, ?_⟩
  · rintro rfl
    exact hwf.noRoot _ _ ht
  · rintro rfl
    exact hd0 (hwf.directoryPlace _ _ _ _ _ hd ht).1.symm

/-- A table directory belongs to one table, and is no database. -/
theorem TablePlace.unique (hwf : fs.WellFormed) {d d' t : Nat} {database' table' : String}
    (h : TablePlace fs database table d t) (h' : TablePlace fs database' table' d' t) :
    database = database' ∧ table = table' ∧ d = d' := by
  obtain ⟨rfl, htable⟩ := hwf.directoryPlace _ _ _ _ _ h.2 h'.2
  exact ⟨(hwf.directoryPlace _ _ _ _ _ h.1 h'.1).2, htable, rfl⟩

theorem TablePlace.not_database (hwf : fs.WellFormed) {d t : Nat} {database' : String}
    (h : TablePlace fs database table d t) : ¬ fs.Mentions 0 database' (.directory t) := by
  intro hmention
  exact (h.ne_zero hwf).1 (hwf.directoryPlace _ _ _ _ _ h.2 hmention).1

end Paths

/-! ## Files that agree with a view -/

/-- Every snapshot of the files shows tables that the view allows. A file that is renamed to a schema
file was synced before, the temporary file that is written next is no schema file in any version, and
a table with a data file is in every version of its database. -/
structure Agrees (fs : CatalogFiles) (k : CatalogView) : Prop where
  wellFormed : fs.WellFormed
  schemaSettled : ∀ d i, fs.Mentions d schemaFile (.file i) → fs.settled i = true
  tempApart : ∀ d, ∀ v ∈ fs.versions d, ∀ i, v.lookup tempFile = some (.file i) →
    v.lookup schemaFile ≠ some (.file i)
  tempFree : ∀ d i, (fs.current d).lookup tempFile = some (.file i) →
    ¬ fs.Mentions d schemaFile (.file i)
  texts : ∀ s, fs.Snapshot s → ∀ database table, ∃ o ∈ k.possible database table,
    tableText s fs.content database table = textOf o
  anchored : ∀ d table t j, (fs.current d).lookup table = some (.directory t) →
    (fs.current t).lookup tableFile = some (.file j) →
    ∀ v ∈ fs.versions d, v.lookup table = some (.directory t)
  onDisk : ∀ database, k.settled database = true →
    ∃ d, ∀ v ∈ fs.versions 0, v.lookup database = some (.directory d)

namespace Agrees

variable {fs : CatalogFiles} {k : CatalogView}

theorem initial : Agrees Files.empty CatalogView.initial where
  wellFormed := wellFormed_empty
  schemaSettled _ _ _ := rfl
  tempApart d v hv i htemp := by
    simp only [versions, Files.empty, List.mem_cons, List.not_mem_nil, or_false] at hv
    rw [hv, AList.lookup_empty] at htemp
    cases htemp
  tempFree d i htemp := by
    change AList.lookup tempFile ∅ = _ at htemp
    rw [AList.lookup_empty] at htemp
    cases htemp
  texts s hs database table := by
    refine ⟨none, List.mem_singleton.mpr rfl, ?_⟩
    rcases htext : tableText s Files.empty.content database table with _ | text
    · rfl
    · obtain ⟨d, _, _, _, hd, _⟩ := tableText_eq_some.mp htext
      have hempty := hs 0
      simp only [versions, Files.empty, List.mem_cons, List.not_mem_nil, or_false] at hempty
      rw [hempty, AList.lookup_empty] at hd
      cases hd
  anchored d table t j htable := by
    change AList.lookup table ∅ = _ at htable
    rw [AList.lookup_empty] at htable
    cases htable
  onDisk database h := by cases h

/-- A view with more possibilities, which is certain of fewer databases. -/
theorem mono {k' : CatalogView} (h : Agrees fs k)
    (hpossible : ∀ d t, ∀ o ∈ k.possible d t, o ∈ k'.possible d t)
    (hsettled : ∀ d, k'.settled d = true → k.settled d = true) : Agrees fs k' :=
  { h with
    texts := fun s hs database table => by
      obtain ⟨o, ho, htext⟩ := h.texts s hs database table
      exact ⟨o, hpossible _ _ o ho, htext⟩
    onDisk := fun database hd => h.onDisk database (hsettled database hd) }

/-- Fewer versions, as after a sync or a power loss; schema files keep their content. -/
theorem of_versions {gs : CatalogFiles} (h : Agrees fs k) (hwf : gs.WellFormed)
    (hversions : ∀ d, ∀ v ∈ gs.versions d, v ∈ fs.versions d)
    (hsettled : ∀ i, fs.settled i = true → gs.settled i = true ∧ gs.content i = fs.content i)
    (hcurrent : gs.current = fs.current ∨ ∀ d, gs.versions d = [gs.current d]) : Agrees gs k := by
  have hmentions : ∀ {d name x}, gs.Mentions d name x → fs.Mentions d name x := by
    rintro d name x ⟨v, hv, hx⟩
    exact ⟨v, hversions d v hv, hx⟩
  refine ⟨hwf, ?_, ?_, ?_, ?_, ?_, ?_⟩
  · intro d i hm
    exact (hsettled i (h.schemaSettled d i (hmentions hm))).1
  · intro d v hv
    exact h.tempApart d v (hversions d v hv)
  · intro d i htemp
    rcases hcurrent with hcurrent | hcurrent
    · rw [hcurrent] at htemp
      exact fun hm => h.tempFree d i htemp (hmentions hm)
    · rintro ⟨v, hv, hschema⟩
      -- the only version left has its temporary file apart from its schema file
      have hv' := hv
      rw [hcurrent, List.mem_singleton] at hv'
      exact h.tempApart d v (hversions d v hv) i (hv' ▸ htemp) hschema
  · intro s hs database table
    obtain ⟨o, ho, htext⟩ := h.texts s (fun d => hversions d _ (hs d)) database table
    refine ⟨o, ho, ?_⟩
    rw [← htext]
    refine Option.ext fun text => ?_
    rw [tableText_eq_some, tableText_eq_some]
    have hcontent : ∀ {t i}, (s t).lookup schemaFile = some (.file i) →
        gs.content i = fs.content i := fun hi =>
      (hsettled _ (h.schemaSettled _ _ ⟨_, hversions _ _ (hs _), hi⟩)).2
    constructor
    · rintro ⟨d, t, j, i, hd, ht, hj, hi, rfl⟩
      exact ⟨d, t, j, i, hd, ht, hj, hi, (hcontent hi).symm⟩
    · rintro ⟨d, t, j, i, hd, ht, hj, hi, rfl⟩
      exact ⟨d, t, j, i, hd, ht, hj, hi, hcontent hi⟩
  · intro d table t j htable hfile v hv
    rcases hcurrent with hcurrent | hcurrent
    · rw [hcurrent] at htable hfile
      exact h.anchored d table t j htable hfile v (hversions d v hv)
    · rw [hcurrent, List.mem_singleton] at hv
      exact hv ▸ htable
  · intro database hd
    obtain ⟨d, hall⟩ := h.onDisk database hd
    exact ⟨d, fun v hv => hall v (hversions 0 v hv)⟩

theorem syncDirectory (h : Agrees fs k) (d : Nat) : Agrees (fs.syncDirectory d) k :=
  h.of_versions h.wellFormed.syncDirectory (fun _ _ hv => mem_versions_syncDirectory hv)
    (fun _ hi => ⟨hi, rfl⟩) (.inl rfl)

theorem powerLoss (h : Agrees fs k) (choice : Nat → Nat) (torn : Nat → List Char) :
    Agrees (fs.powerLoss choice torn) k :=
  h.of_versions (h.wellFormed.powerLoss choice torn) (fun _ _ hv => mem_versions_powerLoss hv)
    (fun _ hi => ⟨rfl, if_pos hi⟩) (.inr fun _ => rfl)

/-- A change of the content of files that no version of a directory has as its schema file. -/
theorem of_content {gs : CatalogFiles} (h : Agrees fs k) (hcurrent : gs.current = fs.current)
    (holder : gs.older = fs.older) (hnext : gs.next = fs.next)
    (hschema : ∀ d i, fs.Mentions d schemaFile (.file i) →
      gs.settled i = true ∧ gs.content i = fs.content i) : Agrees gs k := by
  have hversions : ∀ d, gs.versions d = fs.versions d := by
    intro d
    rw [versions, versions, hcurrent, holder]
  have hmentions : ∀ {d name x}, gs.Mentions d name x → fs.Mentions d name x := by
    rintro d name x ⟨v, hv, hx⟩
    exact ⟨v, hversions d ▸ hv, hx⟩
  refine ⟨h.wellFormed.of_mentions hnext fun _ _ _ hm => hmentions hm, ?_, ?_, ?_, ?_, ?_, ?_⟩
  · intro d i hm
    exact (hschema d i (hmentions hm)).1
  · intro d v hv
    exact h.tempApart d v (hversions d ▸ hv)
  · intro d i htemp hm
    exact h.tempFree d i (hcurrent ▸ htemp) (hmentions hm)
  · intro s hs database table
    have hs' : fs.Snapshot s := fun d => hversions d ▸ hs d
    obtain ⟨o, ho, htext⟩ := h.texts s hs' database table
    refine ⟨o, ho, ?_⟩
    rw [← htext]
    refine Option.ext fun text => ?_
    rw [tableText_eq_some, tableText_eq_some]
    have hcontent : ∀ {t i}, (s t).lookup schemaFile = some (.file i) →
        gs.content i = fs.content i := fun hi => (hschema _ _ (mentions_of_snapshot hs' hi)).2
    constructor
    · rintro ⟨d, t, j, i, hd, ht, hj, hi, rfl⟩
      exact ⟨d, t, j, i, hd, ht, hj, hi, (hcontent hi).symm⟩
    · rintro ⟨d, t, j, i, hd, ht, hj, hi, rfl⟩
      exact ⟨d, t, j, i, hd, ht, hj, hi, hcontent hi⟩
  · intro d table t j htable hfile v hv
    rw [hcurrent] at htable hfile
    exact h.anchored d table t j htable hfile v (hversions d ▸ hv)
  · intro database hd
    obtain ⟨d, hall⟩ := h.onDisk database hd
    exact ⟨d, fun v hv => hall v (hversions 0 ▸ hv)⟩

theorem syncFile (h : Agrees fs k) (i : Nat) : Agrees (fs.syncFile i) k := by
  refine h.of_content rfl rfl rfl fun d j hm => ⟨?_, rfl⟩
  by_cases hj : j = i
  · subst hj
    exact Function.update_self ..
  · exact (Function.update_of_ne hj ..).trans (h.schemaSettled d j hm)

theorem write (h : Agrees fs k) {d i : Nat} (htemp : (fs.current d).lookup tempFile = some (.file i))
    (text : List Char) : Agrees (fs.write i text) k := by
  refine h.of_content rfl rfl rfl fun e j hm => ?_
  have hne : j ≠ i := by
    rintro rfl
    -- all names of a file are in one directory
    obtain rfl := h.wellFormed.filePlace _ _ _ _ _ hm (mentions_current htemp)
    exact h.tempFree _ _ htemp hm
  exact ⟨(Function.update_of_ne hne ..).trans (h.schemaSettled e j hm), Function.update_of_ne hne ..⟩

/-- The old snapshots show what they showed. -/
theorem texts_of_content {content : Nat → List Char} (h : Agrees fs k)
    (hcontent : ∀ d i, fs.Mentions d schemaFile (.file i) → content i = fs.content i)
    {s : Nat → Version String} (hs : fs.Snapshot s) (database table : String) :
    ∃ o ∈ k.possible database table, tableText s content database table = textOf o := by
  obtain ⟨o, ho, htext⟩ := h.texts s hs database table
  refine ⟨o, ho, ?_⟩
  rw [← htext]
  refine Option.ext fun text => ?_
  rw [tableText_eq_some, tableText_eq_some]
  constructor
  · rintro ⟨d, t, j, i, hd, ht, hj, hi, rfl⟩
    exact ⟨d, t, j, i, hd, ht, hj, hi, (hcontent _ _ (mentions_of_snapshot hs hi)).symm⟩
  · rintro ⟨d, t, j, i, hd, ht, hj, hi, rfl⟩
    exact ⟨d, t, j, i, hd, ht, hj, hi, hcontent _ _ (mentions_of_snapshot hs hi)⟩

/-- A new version of directory `d`: what is to be shown of its schema file, its temporary file, the
snapshots that show it, and the entries that have to stay. -/
theorem of_enter {gs : CatalogFiles} (h : Agrees fs k) (hwf : gs.WellFormed) {d : Nat}
    {v : Version String} (hcurrent : gs.current = Function.update fs.current d v)
    (holder : gs.older = Function.update fs.older d (fs.versions d))
    (hcontent : ∀ e i, fs.Mentions e schemaFile (.file i) →
      gs.settled i = true ∧ gs.content i = fs.content i)
    (hschema : ∀ i, v.lookup schemaFile = some (.file i) →
      gs.settled i = true ∧ v.lookup tempFile ≠ some (.file i))
    (htemp : ∀ i, v.lookup tempFile = some (.file i) → ¬ fs.Mentions d schemaFile (.file i))
    (htexts : ∀ s, fs.Snapshot s → s d = fs.current d → ∀ database table,
      ∃ o ∈ k.possible database table,
        tableText (Function.update s d v) gs.content database table = textOf o)
    (hkept : ∀ table t j, v.lookup table = some (.directory t) →
      (gs.current t).lookup tableFile = some (.file j) →
      ∀ w ∈ fs.versions d, w.lookup table = some (.directory t))
    (hfile : ∀ e table j, (fs.current e).lookup table = some (.directory d) →
      v.lookup tableFile = some (.file j) →
      ∀ w ∈ fs.versions e, w.lookup table = some (.directory d))
    (hdisk : ∀ database, k.settled database = true → d = 0 →
      ∀ x, (fs.current 0).lookup database = some x → v.lookup database = some x) : Agrees gs k := by
  have hentered : ∀ e w, w ∈ gs.versions e ↔ w ∈ fs.versions e ∨ e = d ∧ w = v := by
    intro e w
    rw [← mem_versions_enter, versions, versions, hcurrent, holder]
    rfl
  have hmentions : ∀ {e name x}, gs.Mentions e name x →
      fs.Mentions e name x ∨ e = d ∧ v.lookup name = some x := by
    rintro e name x ⟨w, hw, hx⟩
    rcases (hentered e w).mp hw with hw | ⟨he, rfl⟩
    · exact .inl ⟨w, hw, hx⟩
    · exact .inr ⟨he, hx⟩
  have hcurrent_eq_some : ∀ {e name x}, (gs.current e).lookup name = some x →
      e = d ∧ v.lookup name = some x ∨ e ≠ d ∧ (fs.current e).lookup name = some x := by
    intro e name x hx
    rw [hcurrent] at hx
    exact lookup_update_eq_some.mp hx
  refine ⟨hwf, ?_, ?_, ?_, ?_, ?_, ?_⟩
  · intro e i hm
    rcases hmentions hm with hm | ⟨-, hx⟩
    · exact (hcontent e i hm).1
    · exact (hschema i hx).1
  · intro e w hw i hwtemp hwschema
    rcases (hentered e w).mp hw with hw | ⟨-, rfl⟩
    · exact h.tempApart e w hw i hwtemp hwschema
    · exact (hschema i hwschema).2 hwtemp
  · intro e i hx hm
    rcases hcurrent_eq_some hx with ⟨rfl, hx⟩ | ⟨he, hx⟩
    · rcases hmentions hm with hm | ⟨-, hnew⟩
      · exact htemp i hx hm
      · exact (hschema i hnew).2 hx
    · rcases hmentions hm with hm | ⟨he', -⟩
      · exact h.tempFree e i hx hm
      · exact he he'
  · intro s hs
    refine forall_snapshot_enter (d := d) (v := v)
      (P := fun s => ∀ database table, ∃ o ∈ k.possible database table,
        tableText s gs.content database table = textOf o) ?_ htexts s ?_
    · intro s hs
      exact h.texts_of_content (fun e i hm => (hcontent e i hm).2) hs
    · intro e
      exact mem_versions_enter.mpr ((hentered e _).mp (hs e))
  · intro e table t j htable htfile w hw
    rcases (hentered e w).mp hw with hw | ⟨rfl, rfl⟩
    · rcases hcurrent_eq_some htable with ⟨rfl, htable⟩ | ⟨he, htable⟩
      · exact hkept table t j htable htfile w hw
      · rcases hcurrent_eq_some htfile with ⟨rfl, htfile⟩ | ⟨-, htfile⟩
        · exact hfile e table j htable htfile w hw
        · exact h.anchored e table t j htable htfile w hw
    · rcases hcurrent_eq_some htable with ⟨-, htable⟩ | ⟨he, -⟩
      · exact htable
      · exact absurd rfl he
  · intro database hsettled
    obtain ⟨e, hall⟩ := h.onDisk database hsettled
    refine ⟨e, fun w hw => ?_⟩
    rcases (hentered 0 w).mp hw with hw | ⟨hd, rfl⟩
    · exact hall w hw
    · exact hdisk database hsettled hd.symm _ (hall _ List.mem_cons_self)

/-- A new directory, which is empty, under a name that is free. -/
theorem makeDirectory (h : Agrees fs k) {d : Nat} (hd : d < fs.next) {name : String}
    (hfree : (fs.current d).lookup name = none) : Agrees (fs.makeDirectory d name) k := by
  have hfresh : ∀ {v}, v ∈ fs.versions fs.next → ∀ other, v.lookup other = none :=
    fun hv other => h.wellFormed.lookup_unborn le_rfl hv other
  refine h.of_enter (h.wellFormed.makeDirectory hd name) rfl rfl
    (fun e i hm => ⟨h.schemaSettled e i hm, rfl⟩) ?_ ?_ ?_ ?_ ?_ ?_
  · intro i hi
    rcases lookup_insert_eq_some.mp hi with ⟨-, heq⟩ | ⟨-, hi⟩
    · cases heq
    refine ⟨h.schemaSettled d i (mentions_current hi), fun htemp => ?_⟩
    rcases lookup_insert_eq_some.mp htemp with ⟨-, heq⟩ | ⟨-, htemp⟩
    · cases heq
    · exact h.tempFree d i htemp (mentions_current hi)
  · intro i htemp
    rcases lookup_insert_eq_some.mp htemp with ⟨-, heq⟩ | ⟨-, htemp⟩
    · cases heq
    · exact h.tempFree d i htemp
  · intro s hs hsd database table
    obtain ⟨o, ho, htext⟩ := h.texts s hs database table
    refine ⟨o, ho, ?_⟩
    rw [← htext]
    refine Option.ext fun text => ?_
    rw [tableText_eq_some, tableText_eq_some]
    -- every entry on the way but the new one was there, and the new one leads nowhere
    have hold : ∀ {e other x}, (Function.update s d
        ((fs.current d).insert name (.directory fs.next)) e).lookup other = some x →
        x ≠ .directory fs.next → (s e).lookup other = some x := by
      intro e other x hx hne
      rcases lookup_update_eq_some.mp hx with ⟨rfl, hx⟩ | ⟨-, hx⟩
      · rcases lookup_insert_eq_some.mp hx with ⟨-, heq⟩ | ⟨-, hx⟩
        · exact absurd heq hne
        · rw [hsd]
          exact hx
      · exact hx
    have hempty : ∀ other, (Function.update s d ((fs.current d).insert name (.directory fs.next))
        fs.next).lookup other = none := by
      intro other
      rw [Function.update_of_ne (Nat.ne_of_gt hd)]
      exact hfresh (hs fs.next) other
    have hnew : ∀ {e other x}, (s e).lookup other = some x → (Function.update s d
        ((fs.current d).insert name (.directory fs.next)) e).lookup other = some x := by
      intro e other x hx
      by_cases he : e = d
      · subst he
        rw [hsd] at hx
        rw [Function.update_self, AList.lookup_insert_ne, hx]
        rintro rfl
        rw [hfree] at hx
        cases hx
      · rwa [Function.update_of_ne he]
    constructor
    · rintro ⟨e, t, j, i, he, ht, hj, hi, rfl⟩
      have hene : e ≠ fs.next := by
        rintro rfl
        rw [hempty] at ht
        cases ht
      have htne : t ≠ fs.next := by
        rintro rfl
        rw [hempty] at hj
        cases hj
      exact ⟨e, t, j, i, hold he (by simpa using hene), hold ht (by simpa using htne),
        hold hj (by simp), hold hi (by simp), rfl⟩
    · rintro ⟨e, t, j, i, he, ht, hj, hi, rfl⟩
      exact ⟨e, t, j, i, hnew he, hnew ht, hnew hj, hnew hi, rfl⟩
  · intro table t j htable hfile
    rcases lookup_insert_eq_some.mp htable with ⟨-, heq⟩ | ⟨-, htable⟩
    · cases heq
      change (Function.update fs.current d _ fs.next).lookup tableFile = _ at hfile
      rw [Function.update_of_ne (Nat.ne_of_gt hd), hfresh List.mem_cons_self] at hfile
      cases hfile
    · refine h.anchored d table t j htable ?_
      rcases lookup_update_eq_some.mp hfile with ⟨rfl, hfile⟩ | ⟨-, hfile⟩
      · rcases lookup_insert_eq_some.mp hfile with ⟨-, heq⟩ | ⟨-, hfile⟩
        · cases heq
        · exact hfile
      · exact hfile
  · intro e table j htable hfile
    rcases lookup_insert_eq_some.mp hfile with ⟨-, heq⟩ | ⟨-, hfile⟩
    · cases heq
    · exact h.anchored e table d j htable hfile
  · intro database _ hd0 x hx
    subst hd0
    refine lookup_insert_eq_some.mpr (.inr ⟨?_, hx⟩)
    rintro rfl
    rw [hfree] at hx
    cases hx

/-- A new file that is not the schema file. A data file is made in a directory without a schema file
that all versions of its database have. -/
theorem createFile (h : Agrees fs k) {d : Nat} (hd : d < fs.next) {name : String}
    (hfree : (fs.current d).lookup name = none) (hname : name ≠ schemaFile)
    (hdata : name = tableFile → (fs.current d).lookup schemaFile = none ∧
      ∀ e table, (fs.current e).lookup table = some (.directory d) →
        ∀ w ∈ fs.versions e, w.lookup table = some (.directory d)) :
    Agrees (fs.createFile d name) k := by
  have hborn : ∀ {e other i}, fs.Mentions e other (.file i) → i ≠ fs.next := by
    intro e other i hm
    exact Nat.ne_of_lt (h.wellFormed.born e other _ hm).2
  have hcontent : ∀ e i, fs.Mentions e schemaFile (.file i) →
      (fs.createFile d name).settled i = true ∧ (fs.createFile d name).content i = fs.content i := by
    intro e i hm
    exact ⟨(Function.update_of_ne (hborn hm) ..).trans (h.schemaSettled e i hm),
      Function.update_of_ne (hborn hm) ..⟩
  refine h.of_enter (h.wellFormed.createFile hd name) rfl rfl hcontent ?_ ?_ ?_ ?_ ?_ ?_
  · intro i hi
    rcases lookup_insert_eq_some.mp hi with ⟨heq, -⟩ | ⟨-, hi⟩
    · exact absurd heq.symm hname
    refine ⟨(hcontent d i (mentions_current hi)).1, fun htemp => ?_⟩
    rcases lookup_insert_eq_some.mp htemp with ⟨-, heq⟩ | ⟨-, htemp⟩
    · cases heq
      exact hborn (mentions_current hi) rfl
    · exact h.tempFree d i htemp (mentions_current hi)
  · intro i htemp hm
    rcases lookup_insert_eq_some.mp htemp with ⟨-, heq⟩ | ⟨-, htemp⟩
    · cases heq
      exact hborn hm rfl
    · exact h.tempFree d i htemp hm
  · intro s hs hsd database table
    obtain ⟨o, ho, htext⟩ :=
      h.texts_of_content (fun e i hm => (hcontent e i hm).2) hs database table
    refine ⟨o, ho, ?_⟩
    rw [← htext]
    refine Option.ext fun text => ?_
    rw [tableText_eq_some, tableText_eq_some]
    have hold : ∀ {e other x}, (Function.update s d
        ((fs.current d).insert name (.file fs.next)) e).lookup other = some x →
        x ≠ .file fs.next → (s e).lookup other = some x := by
      intro e other x hx hne
      rcases lookup_update_eq_some.mp hx with ⟨rfl, hx⟩ | ⟨-, hx⟩
      · rcases lookup_insert_eq_some.mp hx with ⟨-, heq⟩ | ⟨-, hx⟩
        · exact absurd heq hne
        · rw [hsd]
          exact hx
      · exact hx
    have hnew : ∀ {e other x}, (s e).lookup other = some x → (Function.update s d
        ((fs.current d).insert name (.file fs.next)) e).lookup other = some x := by
      intro e other x hx
      by_cases he : e = d
      · subst he
        rw [hsd] at hx
        rw [Function.update_self, AList.lookup_insert_ne, hx]
        rintro rfl
        rw [hfree] at hx
        cases hx
      · rwa [Function.update_of_ne he]
    constructor
    · rintro ⟨e, t, j, i, he, ht, hj, hi, rfl⟩
      have hi' : (s t).lookup schemaFile = some (.file i) := by
        rcases lookup_update_eq_some.mp hi with ⟨rfl, hi⟩ | ⟨-, hi⟩
        · rcases lookup_insert_eq_some.mp hi with ⟨heq, -⟩ | ⟨-, hi⟩
          · exact absurd heq.symm hname
          · rw [hsd]
            exact hi
        · exact hi
      refine ⟨e, t, j, i, hold he (by simp), hold ht (by simp), hold hj ?_, hi', rfl⟩
      -- the new file is the data file of a table that has no schema file
      intro heq
      cases heq
      rcases lookup_update_eq_some.mp hj with ⟨rfl, hj⟩ | ⟨-, hj⟩
      · rcases lookup_insert_eq_some.mp hj with ⟨hdataname, -⟩ | ⟨-, hj⟩
        · rw [hsd, (hdata hdataname.symm).1] at hi'
          cases hi'
        · exact hborn (mentions_current hj) rfl
      · exact hborn (mentions_of_snapshot hs hj) rfl
    · rintro ⟨e, t, j, i, he, ht, hj, hi, rfl⟩
      exact ⟨e, t, j, i, hnew he, hnew ht, hnew hj, hnew hi, rfl⟩
  · intro table t j htable hfile
    rcases lookup_insert_eq_some.mp htable with ⟨-, heq⟩ | ⟨-, htable⟩
    · cases heq
    rcases lookup_update_eq_some.mp hfile with ⟨rfl, hfile⟩ | ⟨-, hfile⟩
    · rcases lookup_insert_eq_some.mp hfile with ⟨hdataname, -⟩ | ⟨-, hfile⟩
      · exact (hdata hdataname.symm).2 _ table htable
      · exact h.anchored _ table _ j htable hfile
    · exact h.anchored d table t j htable hfile
  · intro e table j htable hfile
    rcases lookup_insert_eq_some.mp hfile with ⟨hdataname, -⟩ | ⟨-, hfile⟩
    · exact (hdata hdataname.symm).2 e table htable
    · exact h.anchored e table d j htable hfile
  · intro database _ hd0 x hx
    subst hd0
    refine lookup_insert_eq_some.mpr (.inr ⟨?_, hx⟩)
    rintro rfl
    rw [hfree] at hx
    cases hx

/-- An entry is removed through which only tables are found that may not exist. -/
theorem remove (h : Agrees fs k) {d : Nat} {name : String}
    (hnone : ∀ database table, Through fs d name database table → none ∈ k.possible database table)
    (hsettled : d = 0 → k.settled name = false) : Agrees (fs.remove d name) k := by
  have hold : ∀ {s : Nat → Version String}, s d = fs.current d → ∀ {e other x},
      (Function.update s d ((fs.current d).erase name) e).lookup other = some x →
      (s e).lookup other = some x := by
    intro s hsd e other x hx
    rcases lookup_update_eq_some.mp hx with ⟨rfl, hx⟩ | ⟨-, hx⟩
    · rw [hsd]
      exact (lookup_erase_eq_some.mp hx).2
    · exact hx
  refine h.of_enter (h.wellFormed.remove name) rfl rfl
    (fun e i hm => ⟨h.schemaSettled e i hm, rfl⟩) ?_ ?_ ?_ ?_ ?_ ?_
  · intro i hi
    have hi := (lookup_erase_eq_some.mp hi).2
    refine ⟨h.schemaSettled d i (mentions_current hi), fun htemp => ?_⟩
    exact h.tempFree d i (lookup_erase_eq_some.mp htemp).2 (mentions_current hi)
  · intro i htemp
    exact h.tempFree d i (lookup_erase_eq_some.mp htemp).2
  · intro s hs hsd database table
    change ∃ o ∈ k.possible database table, tableText _ fs.content database table = textOf o
    rcases hnew : tableText (Function.update s d ((fs.current d).erase name)) fs.content database table
      with _ | text
    · obtain ⟨o, ho, htext⟩ := h.texts s hs database table
      rcases hbefore : tableText s fs.content database table with _ | text
      · exact ⟨o, ho, hbefore.symm.trans htext⟩
      · -- the entry was on the way to this table
        refine ⟨none, hnone database table ?_, rfl⟩
        obtain ⟨e, t, j, i, he, ht, hj, hi, rfl⟩ := tableText_eq_some.mp hbefore
        by_contra hthrough
        have hsame : ∀ {f other x}, (f = d → other ≠ name) → (s f).lookup other = some x →
            (Function.update s d ((fs.current d).erase name) f).lookup other = some x := by
          intro f other x hne hx
          by_cases hf : f = d
          · subst hf
            rw [hsd] at hx
            exact lookup_update_eq_some.mpr
              (.inl ⟨rfl, lookup_erase_eq_some.mpr ⟨hne rfl, hx⟩⟩)
          · exact lookup_update_eq_some.mpr (.inr ⟨hf, hx⟩)
        have hplace : TablePlace fs database table e t :=
          ⟨mentions_of_snapshot hs he, mentions_of_snapshot hs ht⟩
        have hfound : tableText (Function.update s d ((fs.current d).erase name)) fs.content database
            table = some (fs.content i) := by
          refine tableText_eq_some.mpr ⟨e, t, j, i, hsame ?_ he, hsame ?_ ht, hsame ?_ hj,
            hsame ?_ hi, rfl⟩
          · rintro rfl rfl
            exact hthrough (.inl ⟨rfl, rfl⟩)
          · rintro rfl rfl
            exact hthrough (.inr (.inl ⟨hplace.1, rfl⟩))
          · rintro rfl rfl
            exact hthrough (.inr (.inr ⟨e, hplace, .inr rfl⟩))
          · rintro rfl rfl
            exact hthrough (.inr (.inr ⟨e, hplace, .inl rfl⟩))
        rw [hfound] at hnew
        cases hnew
    · obtain ⟨o, ho, htext⟩ := h.texts s hs database table
      refine ⟨o, ho, ?_⟩
      rw [← htext, eq_comm]
      obtain ⟨e, t, j, i, he, ht, hj, hi, rfl⟩ := tableText_eq_some.mp hnew
      exact tableText_eq_some.mpr ⟨e, t, j, i, hold hsd he, hold hsd ht, hold hsd hj, hold hsd hi, rfl⟩
  · intro table t j htable hfile
    refine h.anchored d table t j (lookup_erase_eq_some.mp htable).2 ?_
    exact hold (s := fs.current) rfl hfile
  · intro e table j htable hfile
    exact h.anchored e table d j htable (lookup_erase_eq_some.mp hfile).2
  · intro database hdatabase hd0 x hx
    subst hd0
    refine lookup_erase_eq_some.mpr ⟨?_, hx⟩
    rintro rfl
    rw [hsettled rfl] at hdatabase
    cases hdatabase

/-- The temporary file takes the place of the schema file: its text is one that the view allows. -/
theorem renameTemp (h : Agrees fs k) {database table : String} {d t i : Nat}
    (hplace : TablePlace fs database table d t)
    (htemp : (fs.current t).lookup tempFile = some (.file i)) (hsettled : fs.settled i = true)
    {schema : Schema} (hmay : some schema ∈ k.possible database table)
    (htext : fs.content i = serializeSchema schema.toSchemaParts) :
    Agrees (fs.rename t tempFile schemaFile) k := by
  have hrename : fs.rename t tempFile schemaFile =
      fs.enter t (((fs.current t).erase tempFile).insert schemaFile (.file i)) := by
    rw [Files.rename, htemp]
  have hwf := h.wellFormed.rename (d := t) tempFile schemaFile
  rw [hrename] at hwf ⊢
  -- entries but the schema file and the temporary file stay
  have hother : ∀ {other x}, other ≠ schemaFile → other ≠ tempFile →
      ((((fs.current t).erase tempFile).insert schemaFile (.file i)).lookup other = some x ↔
        (fs.current t).lookup other = some x) := by
    intro other x hschema hother
    rw [AList.lookup_insert_ne hschema, AList.lookup_erase_ne hother]
  have hdirectory : ∀ {other e},
      (((fs.current t).erase tempFile).insert schemaFile (.file i)).lookup other =
        some (.directory e) → (fs.current t).lookup other = some (.directory e) := by
    intro other e hx
    rcases lookup_insert_eq_some.mp hx with ⟨-, heq⟩ | ⟨-, hx⟩
    · cases heq
    · exact (lookup_erase_eq_some.mp hx).2
  have hzero := hplace.ne_zero h.wellFormed
  refine h.of_enter hwf rfl rfl (fun e j hm => ⟨h.schemaSettled e j hm, rfl⟩) ?_ ?_ ?_ ?_ ?_ ?_
  · intro j hj
    rw [AList.lookup_insert, Option.some_inj, Node.file.injEq] at hj
    subst hj
    refine ⟨hsettled, ?_⟩
    rw [AList.lookup_insert_ne (by decide), AList.lookup_erase]
    intro heq
    cases heq
  · intro j hj
    rw [AList.lookup_insert_ne (by decide), AList.lookup_erase] at hj
    cases hj
  · intro s hs hst database' table'
    obtain ⟨o, ho, hbefore⟩ := h.texts s hs database' table'
    by_cases hfound : ∃ d' j, (s 0).lookup database' = some (.directory d') ∧
        (s d').lookup table' = some (.directory t) ∧ (s t).lookup tableFile = some (.file j)
    · -- the table that is found through this directory
      obtain ⟨d', j, hd', ht', hj⟩ := hfound
      obtain ⟨rfl, rfl, rfl⟩ := hplace.unique h.wellFormed
        (show TablePlace fs database' table' d' t from
          ⟨mentions_of_snapshot hs hd', mentions_of_snapshot hs ht'⟩)
      refine ⟨some schema, hmay, ?_⟩
      rw [textOf, Option.map_some, ← htext]
      refine tableText_eq_some.mpr ⟨d, t, j, i, ?_, ?_, ?_, ?_, rfl⟩
      · exact lookup_update_eq_some.mpr (.inr ⟨hzero.2.1.symm, hd'⟩)
      · exact lookup_update_eq_some.mpr (.inr ⟨hzero.2.2.symm, ht'⟩)
      · rw [hst] at hj
        exact lookup_update_eq_some.mpr (.inl ⟨rfl, (hother (by decide) (by decide)).mpr hj⟩)
      · exact lookup_update_eq_some.mpr (.inl ⟨rfl, AList.lookup_insert ..⟩)
    · refine ⟨o, ho, ?_⟩
      rw [← hbefore]
      refine Option.ext fun text => ?_
      rw [tableText_eq_some, tableText_eq_some]
      constructor
      · rintro ⟨e, u, j, l, he, hu, hj, hl, rfl⟩
        have he' : (s 0).lookup database' = some (.directory e) := by
          rcases lookup_update_eq_some.mp he with ⟨h0, -⟩ | ⟨-, he⟩
          · exact absurd h0.symm hzero.2.1
          · exact he
        have hu' : (s e).lookup table' = some (.directory u) := by
          rcases lookup_update_eq_some.mp hu with ⟨rfl, hu⟩ | ⟨-, hu⟩
          · rw [hst]
            exact hdirectory hu
          · exact hu
        have hut : u ≠ t := by
          rintro rfl
          rcases lookup_update_eq_some.mp hj with ⟨-, hj⟩ | ⟨hne, -⟩
          · exact hfound ⟨e, j, he', hu', by rw [hst]; exact (hother (by decide) (by decide)).mp hj⟩
          · exact hne rfl
        rw [Function.update_of_ne hut] at hj hl
        exact ⟨e, u, j, l, he', hu', hj, hl, rfl⟩
      · rintro ⟨e, u, j, l, he, hu, hj, hl, rfl⟩
        have hut : u ≠ t := by
          rintro rfl
          exact hfound ⟨e, j, he, hu, hj⟩
        have het : e ≠ t := by
          rintro rfl
          exact hplace.not_database h.wellFormed (mentions_of_snapshot hs he)
        refine ⟨e, u, j, l, ?_, ?_, ?_, ?_, rfl⟩
        · exact lookup_update_eq_some.mpr (.inr ⟨hzero.2.1.symm, he⟩)
        · exact lookup_update_eq_some.mpr (.inr ⟨het, hu⟩)
        · exact lookup_update_eq_some.mpr (.inr ⟨hut, hj⟩)
        · exact lookup_update_eq_some.mpr (.inr ⟨hut, hl⟩)
  · intro table' u j htable hfile
    refine h.anchored t table' u j (hdirectory htable) ?_
    rcases lookup_update_eq_some.mp hfile with ⟨rfl, hfile⟩ | ⟨-, hfile⟩
    · exact (hother (by decide) (by decide)).mp hfile
    · exact hfile
  · intro e table' j htable hfile
    exact h.anchored e table' t j htable ((hother (by decide) (by decide)).mp hfile)
  · intro _ _ ht0
    exact absurd ht0 hzero.2.1

end Agrees

end Catalog

end ScratchDb
