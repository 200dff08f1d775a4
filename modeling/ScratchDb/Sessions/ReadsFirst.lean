import ScratchDb.Sessions.RecoveryFirst

/-!
# Reading before the recovery

`scan_rows`, `load_schema` and the searches of an index as the first operation of a
new object. Each has read the schema, and a search its index file, before the log
is opened; the results are those of a recovered database where these files are
the same after the recovery, and where the log is opened at all.
-/

namespace ScratchDb.FirstUse

open LoggedDatabase WalManager

section Catalog

variable {code : StorageCode} {root : Bytes} {fs fs' : FileSystem} {tableName : String}

theorem catalogLoadSchema_pages {schema : Schema}
    (h : catalogLoadSchema root fs tableName = .ok schema) :
    (fs.pages (tableFilePath root tableName)).isSome = true := by
  cases hexists : catalogTableExists root fs tableName with
  | false =>
    rw [catalogLoadSchema, if_neg (by simp [hexists])] at h
    cases h
  | true => exact (Bool.and_eq_true_iff.mp hexists).2

theorem withLoaded_congr {α : Type} {missing : Answer} {f : Schema → Early α}
    (h : catalogLoadSchema root fs' tableName = catalogLoadSchema root fs tableName) :
    withLoaded root fs' tableName missing f = withLoaded root fs tableName missing f := by
  rw [withLoaded, h, withLoaded]

theorem withLoaded_goesOn {α : Type} {missing : Answer} {f : Schema → Early α} {work : α}
    (h : withLoaded root fs tableName missing f = .goesOn work) :
    ∃ schema, catalogLoadSchema root fs tableName = .ok schema ∧ f schema = .goesOn work := by
  cases hload : catalogLoadSchema root fs tableName with
  | error e =>
    rw [withLoaded, hload] at h
    cases e with
    | nullopt => cases h
    | exception => cases h
  | ok schema =>
    rw [withLoaded, hload] at h
    exact ⟨schema, rfl, h⟩

theorem readEarly_goesOn {request : Request} {missing : Answer} {schema : Schema}
    (h : readEarly code root fs tableName request missing = .goesOn schema) :
    catalogLoadSchema root fs tableName = .ok schema ∧ schema.storageMode ≠ .memory := by
  obtain ⟨loaded, hload, hwork⟩ := withLoaded_goesOn h
  by_cases hmemory : loaded.storageMode = .memory
  · rw [if_pos hmemory] at hwork
    cases hwork
  · rw [if_neg hmemory] at hwork
    cases hwork
    exact ⟨hload, hmemory⟩

/-- A search goes on in a table on disk. -/
theorem findEarly_goesOn {request : Request} {columnName : String}
    {search : Column → Option IndexSearch} {work : Path × IndexSearch}
    (h : findEarly code root fs tableName request columnName search = .goesOn work) :
    ∃ schema, catalogLoadSchema root fs tableName = .ok schema ∧ schema.storageMode ≠ .memory := by
  obtain ⟨schema, hload, hwork⟩ := withLoaded_goesOn h
  refine ⟨schema, hload, fun hmemory => ?_⟩
  cases hcolumn : schema.findColumn columnName with
  | none =>
    rw [hcolumn] at hwork
    cases hwork
  | some column =>
    simp only [hcolumn] at hwork
    cases hindex : schema.indexes.find? fun i => i.columns = [columnName] with
    | none =>
      rw [hindex] at hwork
      cases hwork
    | some index =>
      simp only [hindex] at hwork
      cases hsearch : search column with
      | none =>
        rw [hsearch] at hwork
        cases hwork
      | some key =>
        simp only [hsearch, if_pos hmemory] at hwork
        cases hwork

end Catalog

section Operations

variable {s : LoggedDatabase} {code : StorageCode} {root : Bytes} {tableName : String}

/-! ## `load_schema` -/

theorem performLoadSchema_disk (s : LoggedDatabase) :
    (performLoadSchema root tableName s).2 = s ∧
      ∀ t : LoggedDatabase, t.disk = s.disk →
        (performLoadSchema root tableName t).1 = (performLoadSchema root tableName s).1 := by
  unfold performLoadSchema
  rw [Prog.bind_ok (Prog.get_apply s)]
  cases hload : catalogLoadSchema root s.disk.fs tableName with
  | error e =>
    cases e with
    | nullopt =>
      refine ⟨rfl, fun t ht => ?_⟩
      rw [Prog.bind_ok (Prog.get_apply t), ht, hload]
      rfl
    | exception =>
      refine ⟨rfl, fun t ht => ?_⟩
      rw [Prog.bind_ok (Prog.get_apply t), ht, hload]
      rfl
  | ok schema =>
    refine ⟨rfl, fun t ht => ?_⟩
    rw [Prog.bind_ok (Prog.get_apply t), ht, hload]
    rfl

/-- `load_schema` never recovers. -/
theorem performLoadSchema_same_iff :
    SameAsRecovered (performLoadSchema root tableName) s ↔ Idle s := by
  constructor
  · rintro ⟨-, hdisk⟩
    rw [(performLoadSchema_disk s).1, (performLoadSchema_disk (recoveredFirst s)).1] at hdisk
    exact hdisk.symm
  · intro hidle
    refine ⟨((performLoadSchema_disk s).2 _ hidle).symm, ?_⟩
    rw [(performLoadSchema_disk s).1, (performLoadSchema_disk (recoveredFirst s)).1]
    exact hidle.symm

/-! ## `scan_rows` -/

/-- An existing file is opened as it is. -/
theorem openTableFile_existing {file : Path} (h : (s.disk.fs.pages file).isSome = true) :
    openTableFile file s = (.ok (s.disk.fs.parentExists file), s) := by
  have hsame : (Effect.openCreate file).applyFs s.disk.fs = s.disk.fs := by
    obtain ⟨blocks, hblocks⟩ := Option.isSome_iff_exists.mp h
    have hpages : (fun p => if p = file then some ((s.disk.fs.pages p).getD []) else s.disk.fs.pages p) =
        s.disk.fs.pages := by
      funext p
      split
      · rename_i hp
        rw [hp, hblocks, Option.getD_some]
      · rfl
    show ({ s.disk.fs with pages := _ } : FileSystem) = s.disk.fs
    rw [hpages]
  rw [openTableFile, Prog.bind_ok (Prog.get_apply s)]
  cases hparent : s.disk.fs.parentExists file with
  | false => rfl
  | true =>
    show (Except.ok true, { s with disk := { s.disk with fs := _ } }) = _
    rw [hsame]

/-- `scan_rows` behind the log. -/
def scanTableFile (code : StorageCode) (root : Bytes) (tableName : String) (schema : Schema) :
    DatabaseIo Answer := do
  if ← openTableFile (tableFilePath root tableName) then
    let t ← Prog.get
    let result := code.scan schema ((t.disk.fs.pages (tableFilePath root tableName)).getD [])
    pure (.scanned result.1 result.2)
  else pure (.scanned false [])

theorem performScan_goesOn {schema : Schema} {logged : Bool} {t : LoggedDatabase}
    (h : readEarly code root s.disk.fs tableName (.scanRows tableName) (.scanned false []) =
      .goesOn schema)
    (hwal : walManager s = (.ok logged, t)) :
    performScan code root tableName s = scanTableFile code root tableName schema t := by
  rw [performScan, Prog.bind_ok (Prog.get_apply s), h]
  exact Prog.bind_ok hwal

theorem scanTableFile_disk {schema : Schema}
    (h : catalogLoadSchema root s.disk.fs tableName = .ok schema) :
    (scanTableFile code root tableName schema s).2 = s := by
  rw [scanTableFile, Prog.bind_ok (openTableFile_existing (catalogLoadSchema_pages h))]
  cases s.disk.fs.parentExists (tableFilePath root tableName) with
  | false => rfl
  | true => rfl

theorem performScan_over
    (h : (readEarly code root s.disk.fs tableName (.scanRows tableName)
      (.scanned false [])).isOver = true) :
    ∃ answer, performScan code root tableName s = (answer, s) ∧
      ∀ t : LoggedDatabase, t.disk = s.disk → performScan code root tableName t = (answer, t) := by
  unfold performScan
  cases hearly : readEarly code root s.disk.fs tableName (.scanRows tableName) (.scanned false []) with
  | answers answer =>
    refine ⟨.ok answer, ?_, fun t ht => ?_⟩
    · rw [Prog.bind_ok (Prog.get_apply s), hearly]
      rfl
    · rw [Prog.bind_ok (Prog.get_apply t), ht, hearly]
      rfl
  | throws =>
    refine ⟨.error .exception, ?_, fun t ht => ?_⟩
    · rw [Prog.bind_ok (Prog.get_apply s), hearly]
      rfl
    · rw [Prog.bind_ok (Prog.get_apply t), ht, hearly]
      rfl
  | goesOn schema =>
    rw [hearly] at h
    cases h

/-- A scan that ends before it opens the log. -/
theorem performScan_over_same_iff (hfresh : Fresh s)
    (h : (readEarly code root s.disk.fs tableName (.scanRows tableName)
      (.scanned false [])).isOver = true) :
    SameAsRecovered (performScan code root tableName) s ↔ Idle s := by
  obtain ⟨answer, hrun, hall⟩ := performScan_over h
  constructor
  · rintro ⟨-, hdisk⟩
    rw [hrun] at hdisk
    by_cases hover : (readEarly code root (recoveredFirst s).disk.fs tableName (.scanRows tableName)
        (.scanned false [])).isOver = true
    · obtain ⟨answer', hrun', -⟩ := performScan_over hover
      rw [hrun'] at hdisk
      exact hdisk.symm
    · obtain ⟨schema, hearly⟩ := exists_goesOn hover
      obtain ⟨b, -, hopen⟩ := walManager_recoveredFirst hfresh
      rw [performScan_goesOn hearly hopen, scanTableFile_disk (readEarly_goesOn hearly).1] at hdisk
      exact hdisk.symm
  · intro hidle
    rw [SameAsRecovered, hrun, hall (recoveredFirst s) hidle]
    exact ⟨rfl, hidle.symm⟩

/-- What a scan under `schema` returns and leaves of these files. -/
def scanned (code : StorageCode) (root : Bytes) (tableName : String) (schema : Schema)
    (fs : FileSystem) : Answer × FileSystem :=
  let file := tableFilePath root tableName
  if fs.parentExists file then
    let result := code.scan schema (((Effect.openCreate file).applyFs fs).pages file |>.getD [])
    (.scanned result.1 result.2, (Effect.openCreate file).applyFs fs)
  else (.scanned false [], fs)

theorem scanTableFile_run (code : StorageCode) (root : Bytes) (tableName : String)
    (schema : Schema) (s : LoggedDatabase) :
    (scanTableFile code root tableName schema s).1 =
        .ok (scanned code root tableName schema s.disk.fs).1 ∧
      (scanTableFile code root tableName schema s).2.disk =
        { s.disk with fs := (scanned code root tableName schema s.disk.fs).2 } := by
  cases hparent : s.disk.fs.parentExists (tableFilePath root tableName) with
  | false =>
    have hopen : openTableFile (tableFilePath root tableName) s = (.ok false, s) := by
      rw [openTableFile, Prog.bind_ok (Prog.get_apply s), hparent]
      rfl
    rw [scanTableFile, Prog.bind_ok hopen, scanned, hparent]
    exact ⟨rfl, rfl⟩
  | true =>
    have hopen : openTableFile (tableFilePath root tableName) s = (.ok true, { s with
        disk := { s.disk with
          fs := (Effect.openCreate (tableFilePath root tableName)).applyFs s.disk.fs } }) := by
      rw [openTableFile, Prog.bind_ok (Prog.get_apply s), hparent]
      rfl
    rw [scanTableFile, Prog.bind_ok hopen, scanned, hparent]
    exact ⟨rfl, rfl⟩

/-- The recovered files are read alike under the schema that was read before the recovery. -/
def ScansAlike (code : StorageCode) (root : Bytes) (tableName : String) (schema : Schema)
    (fs : FileSystem) : Prop :=
  match readEarly code root fs tableName (.scanRows tableName) (.scanned false []) with
  | .goesOn schema' =>
    scanned code root tableName schema fs = scanned code root tableName schema' fs
  | .answers answer => scanned code root tableName schema fs = (answer, fs)
  | .throws => False

/-- A scan that opens the log has read the schema before. -/
theorem performScan_same_iff {schema : Schema} (hfresh : Fresh s)
    (h : readEarly code root s.disk.fs tableName (.scanRows tableName) (.scanned false []) =
      .goesOn schema) :
    SameAsRecovered (performScan code root tableName) s ↔
      ScansAlike code root tableName schema (recoveredFirst s).disk.fs := by
  obtain ⟨b, hopen, hopen'⟩ := walManager_recoveredFirst hfresh
  obtain ⟨hanswer, hdisk⟩ := scanTableFile_run code root tableName schema (recoveredFirst s)
  rw [SameAsRecovered, performScan_goesOn h hopen, hanswer, hdisk, ScansAlike]
  cases hearly : readEarly code root (recoveredFirst s).disk.fs tableName (.scanRows tableName)
      (.scanned false []) with
  | goesOn schema' =>
    obtain ⟨hanswer', hdisk'⟩ := scanTableFile_run code root tableName schema' (recoveredFirst s)
    rw [performScan_goesOn hearly hopen', hanswer', hdisk']
    dsimp only
    rw [Except.ok.injEq, Disk.mk.injEq, Prod.ext_iff]
    exact and_congr_right fun _ => and_iff_left rfl
  | answers answer =>
    have hrun : performScan code root tableName (recoveredFirst s) =
        (.ok answer, recoveredFirst s) := by
      rw [performScan, Prog.bind_ok (Prog.get_apply _), hearly]
      rfl
    rw [hrun]
    dsimp only
    rw [Except.ok.injEq, Disk.mk.injEq, Prod.ext_iff]
    exact and_congr_right fun _ => and_iff_left rfl
  | throws =>
    have hrun : performScan code root tableName (recoveredFirst s) =
        (.error .exception, recoveredFirst s) := by
      rw [performScan, Prog.bind_ok (Prog.get_apply _), hearly]
      rfl
    rw [hrun]
    simp

/-- A schema that the recovery leaves alone. -/
theorem scansAlike_of_loaded {schema : Schema} {fs : FileSystem}
    (h : readEarly code root s.disk.fs tableName (.scanRows tableName) (.scanned false []) =
      .goesOn schema)
    (hload : catalogLoadSchema root fs tableName = catalogLoadSchema root s.disk.fs tableName) :
    ScansAlike code root tableName schema fs := by
  rw [ScansAlike, show readEarly code root fs tableName _ _ = _ from (withLoaded_congr hload).trans h]

/-! ## The searches of an index -/

/-- The first row that is read opens the log. -/
theorem readRow_recoveredFirst {schema : Schema} (hfresh : Fresh s)
    (hschema : catalogLoadSchema root s.disk.fs tableName = .ok schema)
    (hdisk : schema.storageMode ≠ .memory)
    (hload : catalogLoadSchema root (recoveredFirst s).disk.fs tableName =
      catalogLoadSchema root s.disk.fs tableName) (recordId : RecordId) :
    readRow code root tableName recordId s =
      readRow code root tableName recordId (recoveredFirst s) := by
  obtain ⟨b, hopen, hopen'⟩ := walManager_recoveredFirst hfresh
  rw [readRow, Prog.bind_ok (Prog.get_apply s), Prog.bind_ok (Prog.get_apply (recoveredFirst s)),
    hload, hschema]
  dsimp only
  rw [if_neg hdisk, Prog.bind_ok hopen, Prog.bind_ok hopen']

theorem setPages_self {file : Path} {blocks : List Page} (h : s.disk.fs.pages file = some blocks) :
    setPages file blocks s = (.ok (), s) := by
  have hsame : withPages s.disk.fs file blocks = s.disk.fs := by
    have hpages : (fun p => if p = file then some blocks else s.disk.fs.pages p) =
        s.disk.fs.pages := by
      funext p
      split
      · rename_i hp
        rw [hp, h]
      · rfl
    show ({ s.disk.fs with pages := _ } : FileSystem) = s.disk.fs
    rw [hpages]
  show (Except.ok (), { s with disk := { s.disk with fs := _ } }) = _
  rw [hsame]

theorem performFind_over {early : FileSystem → Early (Path × IndexSearch)}
    (h : (early s.disk.fs).isOver = true) :
    ∃ answer, performFind code root tableName early s = (answer, s) ∧
      ∀ t : LoggedDatabase, t.disk = s.disk →
        performFind code root tableName early t = (answer, t) := by
  unfold performFind
  cases hearly : early s.disk.fs with
  | answers answer =>
    refine ⟨.ok answer, ?_, fun t ht => ?_⟩
    · rw [Prog.bind_ok (Prog.get_apply s), hearly]
      rfl
    · rw [Prog.bind_ok (Prog.get_apply t), ht, hearly]
      rfl
  | throws =>
    refine ⟨.error .exception, ?_, fun t ht => ?_⟩
    · rw [Prog.bind_ok (Prog.get_apply s), hearly]
      rfl
    · rw [Prog.bind_ok (Prog.get_apply t), ht, hearly]
      rfl
  | goesOn work =>
    rw [hearly] at h
    cases h

/-- A search of the blocks of an existing index file. -/
def searchBlocks (code : StorageCode) (root : Bytes) (tableName : String) (file : Path)
    (search : IndexSearch) (blocks : List Page) : DatabaseIo Answer :=
  match code.openIndex blocks with
  | none => do
    setPages file blocks
    Prog.stop .exception
  | some (index, opened) => do
    setPages file opened
    let rows ← (readRows code root tableName (code.search index opened search)).ensuring
      (closeIndexFile code file index)
    pure (.found (some rows))

theorem performFind_goesOn {early : FileSystem → Early (Path × IndexSearch)} {file : Path}
    {search : IndexSearch} {blocks : List Page} (h : early s.disk.fs = .goesOn (file, search))
    (hblocks : s.disk.fs.pages file = some blocks) :
    performFind code root tableName early s =
      searchBlocks code root tableName file search blocks s := by
  have hindex : indexBlocks s.disk.fs file = some blocks := by
    rw [indexBlocks, hblocks]
    rfl
  rw [performFind, Prog.bind_ok (Prog.get_apply s), h]
  dsimp only
  rw [hindex]
  rfl

/-- An index file in which the search finds rows. -/
def FindsRows (code : StorageCode) (search : IndexSearch) (blocks : List Page) : Prop :=
  ∃ index, code.openIndex blocks = some (index, blocks) ∧ code.search index blocks search ≠ []

def FindsNoRow (code : StorageCode) (search : IndexSearch) (blocks : List Page) : Prop :=
  ∀ index opened, code.openIndex blocks = some (index, opened) →
    code.search index opened search = []

/-- What a search that reads no row does to an object depends on its disk. -/
theorem searchBlocks_idle {t : LoggedDatabase} {file : Path} {search : IndexSearch}
    {blocks : List Page} (hnone : FindsNoRow code search blocks) (ht : t.disk = s.disk) :
    (searchBlocks code root tableName file search blocks t).1 =
        (searchBlocks code root tableName file search blocks s).1 ∧
      (searchBlocks code root tableName file search blocks t).2.disk =
        (searchBlocks code root tableName file search blocks s).2.disk := by
  cases s with
  | mk disk directory manager next active aborted given =>
    have ht : t.disk = disk := ht
    subst ht
    unfold searchBlocks
    cases hopen : code.openIndex blocks with
    | none => exact ⟨rfl, rfl⟩
    | some result =>
      dsimp only
      rw [hnone result.1 result.2 hopen, readRows]
      exact ⟨rfl, rfl⟩

/-- The rows of a search that reads any are read behind the log. -/
theorem searchBlocks_recoveredFirst {schema : Schema} {file : Path} {search : IndexSearch}
    {blocks : List Page} (hfresh : Fresh s)
    (hschema : catalogLoadSchema root s.disk.fs tableName = .ok schema)
    (hdisk : schema.storageMode ≠ .memory)
    (hload : catalogLoadSchema root (recoveredFirst s).disk.fs tableName =
      catalogLoadSchema root s.disk.fs tableName)
    (hblocks : s.disk.fs.pages file = some blocks)
    (hblocks' : (recoveredFirst s).disk.fs.pages file = some blocks)
    (hfinds : FindsRows code search blocks) :
    searchBlocks code root tableName file search blocks s =
      searchBlocks code root tableName file search blocks (recoveredFirst s) := by
  obtain ⟨index, hopen, hsome⟩ := hfinds
  have hrows : readRows code root tableName (code.search index blocks search) s =
      readRows code root tableName (code.search index blocks search) (recoveredFirst s) := by
    obtain ⟨recordId, recordIds, hids⟩ := List.exists_cons_of_ne_nil hsome
    rw [hids, readRows, Prog.bind_apply, Prog.bind_apply,
      readRow_recoveredFirst hfresh hschema hdisk hload]
  have hensured : ((readRows code root tableName (code.search index blocks search)).ensuring
      (closeIndexFile code file index)) s =
      ((readRows code root tableName (code.search index blocks search)).ensuring
        (closeIndexFile code file index)) (recoveredFirst s) := by
    rw [Prog.ensuring, Prog.ensuring, hrows]
  unfold searchBlocks
  rw [hopen]
  dsimp only
  rw [Prog.bind_ok (setPages_self hblocks), Prog.bind_ok (setPages_self hblocks'),
    Prog.bind_apply, Prog.bind_apply, hensured]

/-- The recovery leaves alone what a search has read, and the search opens the log if there is
anything to recover. -/
structure FindsInTime (code : StorageCode) (root : Bytes) (tableName : String) (s : LoggedDatabase)
    (file : Path) (search : IndexSearch) (blocks : List Page) : Prop where
  schema : catalogLoadSchema root (recoveredFirst s).disk.fs tableName =
    catalogLoadSchema root s.disk.fs tableName
  before : s.disk.fs.pages file = some blocks
  after : (recoveredFirst s).disk.fs.pages file = some blocks
  opens : FindsRows code search blocks ∨ FindsNoRow code search blocks ∧ Idle s

theorem performFind_same {early : FileSystem → Early (Path × IndexSearch)} {schema : Schema}
    {file : Path} {search : IndexSearch} {blocks : List Page} (hfresh : Fresh s)
    (h : early s.disk.fs = .goesOn (file, search))
    (h' : early (recoveredFirst s).disk.fs = .goesOn (file, search))
    (hschema : catalogLoadSchema root s.disk.fs tableName = .ok schema)
    (hdisk : schema.storageMode ≠ .memory)
    (htime : FindsInTime code root tableName s file search blocks) :
    SameAsRecovered (performFind code root tableName early) s := by
  unfold SameAsRecovered
  rw [performFind_goesOn h htime.before, performFind_goesOn h' htime.after]
  rcases htime.opens with hfinds | ⟨hnone, hidle⟩
  · rw [searchBlocks_recoveredFirst hfresh hschema hdisk htime.schema htime.before htime.after hfinds]
    exact ⟨rfl, rfl⟩
  · obtain ⟨hanswer, hfiles⟩ := @searchBlocks_idle s code root tableName _ file search blocks hnone hidle
    exact ⟨hanswer.symm, hfiles.symm⟩

/-- Behind the log a row is read without a trace. -/
theorem readRow_state {logged : Bool} (hopen : walManager s = (.ok logged, s))
    (recordId : RecordId) : (readRow code root tableName recordId s).2 = s := by
  rw [readRow, Prog.bind_ok (Prog.get_apply s)]
  cases hload : catalogLoadSchema root s.disk.fs tableName with
  | error e =>
    cases e with
    | nullopt => rfl
    | exception => rfl
  | ok schema =>
    dsimp only
    split
    · rfl
    · rw [Prog.bind_ok hopen, Prog.bind_ok (openTableFile_existing (catalogLoadSchema_pages hload))]
      cases s.disk.fs.parentExists (tableFilePath root tableName) with
      | false => rfl
      | true => rfl

theorem readRows_state {logged : Bool} (hopen : walManager s = (.ok logged, s))
    (recordIds : List RecordId) : (readRows code root tableName recordIds s).2 = s := by
  induction recordIds with
  | nil => rfl
  | cons recordId recordIds ih =>
    have hrow := @readRow_state s code root tableName logged hopen recordId
    rw [readRows, Prog.bind_apply]
    cases hrun : readRow code root tableName recordId s with
    | mk out t =>
      rw [show t = s by rw [← hrow, hrun]]
      cases out with
      | error e => rfl
      | ok row =>
        dsimp only
        rw [Prog.bind_apply]
        cases hrest : readRows code root tableName recordIds s with
        | mk out u =>
          rw [show u = s by rw [← ih, hrest]]
          cases out with
          | error e => rfl
          | ok rows =>
            cases row with
            | none => rfl
            | some values => rfl

theorem performFind_idle {early : FileSystem → Early (Path × IndexSearch)} (hidle : Idle s)
    (hover : (early s.disk.fs).isOver = true) :
    SameAsRecovered (performFind code root tableName early) s := by
  obtain ⟨answer, hrun, hall⟩ := performFind_over hover
  rw [SameAsRecovered, hrun, hall (recoveredFirst s) hidle]
  exact ⟨rfl, hidle.symm⟩

theorem withPages_withPages (fs : FileSystem) (file : Path) (old new : List Page) :
    withPages (withPages fs file old) file new = withPages fs file new := by
  unfold withPages
  dsimp only
  congr 1
  funext p
  split
  · rfl
  · rfl

/-- Behind the log a search writes its index file. -/
theorem performFind_disk {early : FileSystem → Early (Path × IndexSearch)}
    {work : Path × IndexSearch} (hmanager : s.manager.isSome = true)
    (h : early s.disk.fs = .goesOn work) :
    (performFind code root tableName early s).2.disk = s.disk ∨ ∃ blocks,
      (performFind code root tableName early s).2.disk =
        { s.disk with fs := withPages s.disk.fs work.1 blocks } := by
  rw [performFind, Prog.bind_ok (Prog.get_apply s), h]
  dsimp only
  cases hblocks : indexBlocks s.disk.fs work.1 with
  | none => exact .inl rfl
  | some blocks =>
    dsimp only
    cases hopen : code.openIndex blocks with
    | none => exact .inr ⟨blocks, rfl⟩
    | some result =>
      refine .inr ?_
      let t : LoggedDatabase :=
        { s with disk := { s.disk with fs := withPages s.disk.fs work.1 result.2 } }
      have hset : setPages work.1 result.2 s = (.ok (), t) := rfl
      have hrows := @readRows_state t code root tableName _ (walManager_open (s := t) hmanager)
        (code.search result.1 result.2 work.2)
      let closed := code.closeIndex result.1 ((t.disk.fs.pages work.1).getD [])
      have hclosed : closeIndexFile code work.1 result.1 t =
          (.ok (), { t with
            disk := { t.disk with fs := withPages t.disk.fs work.1 closed } }) := rfl
      refine ⟨closed, ?_⟩
      dsimp only
      rw [Prog.bind_ok hset, Prog.bind_apply, Prog.ensuring]
      cases hrun : readRows code root tableName (code.search result.1 result.2 work.2) t with
      | mk out u =>
        rw [show u = t by rw [← hrows, hrun]]
        dsimp only
        rw [hclosed]
        cases out with
        | error e =>
          dsimp only
          rw [withPages_withPages]
        | ok rows =>
          show ({ t.disk with fs := withPages t.disk.fs work.1 _ } : Disk) = _
          rw [withPages_withPages]

theorem catalogLoadSchema_withPages {fs : FileSystem} {file : Path} {blocks : List Page}
    {schema : Schema} (h : catalogLoadSchema root fs tableName = .ok schema) :
    catalogLoadSchema root (withPages fs file blocks) tableName = .ok schema := by
  have hexists : catalogTableExists root (withPages fs file blocks) tableName =
      catalogTableExists root fs tableName := by
    have hpages : ((withPages fs file blocks).pages (tableFilePath root tableName)).isSome =
        (fs.pages (tableFilePath root tableName)).isSome := by
      show (if tableFilePath root tableName = file then some blocks else
        fs.pages (tableFilePath root tableName)).isSome = _
      split
      · exact (catalogLoadSchema_pages h).symm
      · rfl
    rw [catalogTableExists, hpages]
    rfl
  rw [catalogLoadSchema, hexists]
  exact h

/-- A search that ends before it opens its index file. -/
theorem performFind_over_same_iff {request : Request} {columnName : String}
    {search : Column → Option IndexSearch} (hfresh : Fresh s)
    (h : (findEarly code root s.disk.fs tableName request columnName search).isOver = true) :
    SameAsRecovered (performFind code root tableName fun fs =>
      findEarly code root fs tableName request columnName search) s ↔ Idle s := by
  let early := fun fs => findEarly code root fs tableName request columnName search
  constructor
  · rintro ⟨-, hdisk⟩
    obtain ⟨answer, hrun, -⟩ := @performFind_over s code root tableName early h
    rw [hrun] at hdisk
    cases hdir : s.disk.fs.isDirectory s.directory with
    | false => rw [Idle, recoveredFirst_noDirectory hdir]
    | true =>
      by_cases hover : (early (recoveredFirst s).disk.fs).isOver = true
      · obtain ⟨answer', hrun', -⟩ := @performFind_over _ code root tableName early hover
        rw [hrun'] at hdisk
        exact hdisk.symm
      · -- The table is found in the recovered files, so the search is possible in the others too.
        exfalso
        obtain ⟨work, hearly⟩ := exists_goesOn hover
        obtain ⟨schema, hschema, -⟩ := findEarly_goesOn hearly
        have hmanager : (recoveredFirst s).manager.isSome = true := by
          rw [recoveredFirst_closed hfresh hdir, (opened_fields s).2.1]
          rfl
        have hload : catalogLoadSchema root s.disk.fs tableName =
            catalogLoadSchema root (recoveredFirst s).disk.fs tableName := by
          rcases performFind_disk hmanager hearly with hsame | ⟨blocks, hchanged⟩
          · rw [hdisk, hsame]
          · rw [hdisk, hchanged, hschema]
            exact catalogLoadSchema_withPages hschema
        have hgoes := (withLoaded_congr hload).trans hearly
        have hover' : (early s.disk.fs).isOver = true := h
        rw [show early s.disk.fs = .goesOn work from hgoes] at hover'
        cases hover'
  · exact fun hidle => performFind_idle hidle h

end Operations

end ScratchDb.FirstUse
