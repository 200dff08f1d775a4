import ScratchDb.Sessions.ReadsFirst

/-!
# Recovery before use

Which operations return, as the first ones of a new object, what they return on
the recovered database, and leave the same files and the same log.
-/

namespace ScratchDb.FirstUse

open LoggedDatabase WalManager

/-- What every log holds that this code has written for the database in `directory`. -/
structure WrittenLog (directory : Path) (log : List WalRecord) : Prop where
  lsns : ∀ r ∈ log, 0 < r.lsn
  below : ∀ r ∈ log, Below directory r

section

variable (code : StorageCode) (root : Bytes) (s : LoggedDatabase)

/-- The recovery does not come too late. -/
def Course.InTime : Course → Prop
  | .write early =>
    -- the records of the statement carry the id that was taken before the log was opened
    s.disk.wal = [] ∨ s.disk.fs.isDirectory s.directory = false ∨
      Idle s ∧ (early s.disk.fs).isOver = true
  | .scan tableName =>
    match readEarly code root s.disk.fs tableName (.scanRows tableName) (.scanned false []) with
    | .goesOn schema => ScansAlike code root tableName schema (recoveredFirst s).disk.fs
    | _ => Idle s
  | .loadSchema _ => Idle s
  | .find tableName early =>
    match early s.disk.fs with
    | .goesOn work => ∃ blocks, FindsInTime code root tableName s work.1 work.2 blocks
    | _ => Idle s

/-- The operation is a search that has come to its index file. -/
def Course.SearchesOn (s : LoggedDatabase) : Course → Prop
  | .find _ early => ∃ work, early s.disk.fs = .goesOn work
  | _ => False

end

section

variable {code : StorageCode} {root : Bytes} {s : LoggedDatabase}

/-- Every search finds its index in the schema. -/
theorem course_find {request : Request} {tableName : String}
    {early : FileSystem → Early (Path × IndexSearch)}
    (h : course code root request = .find tableName early) :
    ∃ columnName search, early = fun fs =>
      findEarly code root fs tableName request columnName search := by
  cases request with
  | findRowsByIndex tableName columnName value =>
    cases h
    exact ⟨_, _, rfl⟩
  | findRowsByIndexRange tableName columnName lower includeLower upper includeUpper =>
    cases h
    exact ⟨_, _, rfl⟩
  | addConstraint | dropConstraint | createIndex | dropIndex | insertRow | updateRow | deleteRow
  | scanRows | loadSchema => cases h

theorem find_same {request : Request} {tableName : String}
    {early : FileSystem → Early (Path × IndexSearch)} (hfresh : Fresh s)
    (hcourse : course code root request = .find tableName early)
    (h : (Course.find tableName early).InTime code root s) :
    SameAsRecovered (performFind code root tableName early) s := by
  cases hearly : early s.disk.fs with
  | answers answer =>
    rw [Course.InTime, hearly] at h
    exact performFind_idle h (by rw [hearly]; rfl)
  | throws =>
    rw [Course.InTime, hearly] at h
    exact performFind_idle h (by rw [hearly]; rfl)
  | goesOn work =>
    rw [Course.InTime, hearly] at h
    obtain ⟨blocks, htime⟩ := h
    obtain ⟨columnName, search, rfl⟩ := course_find hcourse
    obtain ⟨schema, hschema, hdisk⟩ := findEarly_goesOn hearly
    have hearly' := (withLoaded_congr htime.schema).trans hearly
    exact performFind_same hfresh hearly hearly' hschema hdisk htime

theorem find_inTime {request : Request} {tableName : String}
    {early : FileSystem → Early (Path × IndexSearch)} (hfresh : Fresh s)
    (hcourse : course code root request = .find tableName early)
    (hsearch : ¬ (Course.find tableName early).SearchesOn s)
    (h : SameAsRecovered (performFind code root tableName early) s) :
    (Course.find tableName early).InTime code root s := by
  obtain ⟨columnName, search, rfl⟩ := course_find hcourse
  cases hearly : findEarly code root s.disk.fs tableName request columnName search with
  | answers answer =>
    rw [Course.InTime, hearly]
    exact (performFind_over_same_iff hfresh (by rw [hearly]; rfl)).mp h
  | throws =>
    rw [Course.InTime, hearly]
    exact (performFind_over_same_iff hfresh (by rw [hearly]; rfl)).mp h
  | goesOn work => exact absurd ⟨work, hearly⟩ hsearch

theorem scan_same_iff {tableName : String} (hfresh : Fresh s) :
    SameAsRecovered (performScan code root tableName) s ↔
      (Course.scan tableName).InTime code root s := by
  cases hearly : readEarly code root s.disk.fs tableName (.scanRows tableName)
      (.scanned false []) with
  | answers answer =>
    rw [Course.InTime, hearly]
    exact performScan_over_same_iff hfresh (by rw [hearly]; rfl)
  | throws =>
    rw [Course.InTime, hearly]
    exact performScan_over_same_iff hfresh (by rw [hearly]; rfl)
  | goesOn schema =>
    rw [Course.InTime, hearly]
    exact performScan_same_iff hfresh hearly

end

/-! ## A table whose schema is being replaced -/

/-- No tables are stored, and no rows are read. -/
def noStorage : StorageCode where
  serialize := fun _ _ => none
  insertBody := fun _ _ _ _ => (⟨[], .fails⟩, ⟨0, 0⟩)
  updateBody := fun _ recordId _ _ _ => (⟨[], .fails⟩, recordId)
  deleteBody := fun _ _ _ => ⟨[], .fails⟩
  rebuildIndex := fun _ _ _ => ⟨[], .fails⟩
  scan := fun _ _ => (true, [])
  read := fun _ _ _ => none
  memoryTable := fun _ _ => .done false
  memoryRow := fun _ _ => none
  Index := Unit
  openIndex := fun blocks => some ((), blocks)
  search := fun _ _ _ => []
  closeIndex := fun _ blocks => blocks

/-- Table `t` of database `d`. -/
def tableParts (constraints : List ConstraintDefinition) : SchemaParts :=
  { tableName := "t", columns := [⟨"a", .integer, true, 8, 0, 0⟩], constraints, indexes := [],
    storageMode := .disk }

def databaseDirectory : Bytes := [100]

def tableFiles (schema : SchemaParts) : FileSystem where
  isDirectory := fun p => p.isPrefixOf (pathOf (tableDirectoryPath databaseDirectory "t"))
  text := fun p =>
    if p = schemaFilePath databaseDirectory "t" then some (schemaText schema) else none
  pages := fun p => if p = tableFilePath databaseDirectory "t" then some [] else none

def uniqueParts : SchemaParts := tableParts [⟨1, .unique, ["a"], []⟩]

/-- The disk of a process that has replaced a schema and not committed the change. -/
def unfinishedChange : Disk where
  fs := tableFiles uniqueParts
  wal :=
    [⟨.beginTransaction, 1, 1, noPageId, [], [], [], []⟩,
      ⟨.schemaUpdate, 2, 1, noPageId, tableDirectoryPath databaseDirectory "t",
        schemaText (tableParts []), schemaText uniqueParts, []⟩]

/-- The same with the commit in the log, and the file as it was. -/
def finishedChange : Disk where
  fs := tableFiles uniqueParts
  wal := unfinishedChange.wal ++ [⟨.commitTransaction, 3, 1, noPageId, [], [], [], []⟩]

theorem finishedChange_written : WrittenLog (pathOf databaseDirectory) finishedChange.wal where
  lsns := by decide
  below := by
    intro r hr htype
    simp only [finishedChange, unfinishedChange, List.cons_append, List.nil_append,
      List.mem_cons, List.not_mem_nil, or_false] at hr
    rcases hr with rfl | rfl | rfl
    · exact absurd htype (by decide)
    · exact absurd htype (by decide)
    · exact absurd htype (by decide)

end ScratchDb.FirstUse
