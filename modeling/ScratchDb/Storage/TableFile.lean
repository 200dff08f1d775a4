import ScratchDb.Storage.PageCache

/-!
# Table files

`table_file.cpp`: records in slotted pages behind a page cache, every page
update logged before the page is marked dirty.
-/

namespace ScratchDb

open PageCache

/-- `RecordId`. -/
structure RecordId where
  pageId : Nat
  slotId : Nat
deriving DecidableEq, Repr

/-- The members of `TableFile` that stay as constructed; `walManager` tells
whether `wal_manager_` is set. -/
structure TableFile where
  path : Bytes
  walManager : Bool
  transactionId : Nat

namespace TableFile

def key (f : TableFile) (pageId : Nat) : CachedPageKey := ⟨pathOf f.path, pageId⟩

/-- The capacity of `page_cache_`. -/
def cacheCapacity : Nat := 64

/-- The state the constructor leaves: an empty cache, and the pages of the file. -/
def opened (f : TableFile) (w : World) : OpenFile :=
  ⟨w, PageCache.empty cacheCapacity, w.disk.fs.pageCount (pathOf f.path), []⟩

def flush (f : TableFile) (order : HashOrder) : FileIo Bool := flushAllPages order f.walManager

def discardCache : FileIo Unit := modifyCache cleared

/-- The constructor, a body and the destructor. -/
def withFile {α : Type} (f : TableFile) (order : HashOrder) (body : FileIo α) : Io α := do
  if !(← perform (.openCreate (pathOf f.path))) then Prog.stop .exception
  else fun w =>
    let ended := body.ensuring (do let _ ← f.flush order; discardCache) (f.opened w)
    (ended.1, ended.2.world)

/-- `log_page_update`: the page with the LSN of its record, `none` when it
could not be logged. -/
def logPageUpdate (f : TableFile) (pageId : Nat) (beforePage afterPage : Page) :
    FileIo (Option Page) := do
  if !f.walManager then pure (some afterPage)
  else
    let lsn ← OpenFile.io (WalManager.logPageUpdate f.transactionId f.path pageId beforePage afterPage)
    if lsn = 0 then pure none
    else pure (some (afterPage.setPageLsn lsn))

/-- Log the change of a fetched page from `before` to `after`; the page is put
back and unpinned when that fails. -/
def logOrRestore (f : TableFile) (pageId : Nat) (before after : Page) : FileIo Bool := do
  match ← f.logPageUpdate pageId before after with
  | none => do
    setPage (f.key pageId) before
    let _ ← unpinPage (f.key pageId) false
    pure false
  | some page => do
    setPage (f.key pageId) page
    pure true

def readPage (f : TableFile) (pageId : Nat) : FileIo (Option Page) := do
  let s ← Prog.get
  if pageId ≥ s.pageCount then pure none
  else
    match ← fetchPage (f.key pageId) false with
    | none => pure none
    | some page =>
      if ← unpinPage (f.key pageId) false then pure (some page) else pure none

def writePage (f : TableFile) (pageId : Nat) (page : Page) : FileIo Bool := do
  let s ← Prog.get
  if pageId ≥ s.pageCount then pure false
  else
    match ← fetchPage (f.key pageId) false with
    | none => pure false
    | some before =>
      if !(← f.logOrRestore pageId before page) then pure false
      else unpinPage (f.key pageId) true

def appendPage (f : TableFile) (page : Page) : FileIo Bool := do
  let s ← Prog.get
  match ← f.logPageUpdate s.pageCount Page.blank page with
  | none => pure false
  | some loggedPage =>
    let flushed ← if f.walManager then OpenFile.io (WalManager.flushThrough loggedPage.pageLsn)
      else pure true
    if !flushed then pure false
    else if !(← OpenFile.io (perform (.writePage (pathOf f.path) s.pageCount loggedPage))) then
      pure false
    else do
      Prog.modify fun t => { t with pageCount := s.pageCount + 1 }
      if !(← newPage (f.key s.pageCount) loggedPage false) then do
        Prog.modify fun t => { t with pageCount := s.pageCount }
        pure false
      else unpinPage (f.key s.pageCount) false

/-- The first-fit scan of `insert_record` over `count` pages from `pageId` on. -/
def insertScan (f : TableFile) (record : Bytes) : Nat → Nat → FileIo (Option RecordId)
  | 0, _ => pure none
  | count + 1, pageId => do
    match ← fetchPage (f.key pageId) false with
    | none => f.insertScan record count (pageId + 1)
    | some before =>
      match before.insert record with
      | (some slotId, page) =>
        if !(← f.logOrRestore pageId before page) then Prog.stop .exception
        else do
          let _ ← unpinPage (f.key pageId) true
          pure (some ⟨pageId, slotId⟩)
      | (none, page) => do
        setPage (f.key pageId) page
        let _ ← unpinPage (f.key pageId) false
        f.insertScan record count (pageId + 1)

def insertRecord (f : TableFile) (record : Bytes) : FileIo RecordId := do
  let s ← Prog.get
  match ← f.insertScan record s.pageCount 0 with
  | some recordId => pure recordId
  | none =>
    match Page.blank.insert record with
    | (none, _) => Prog.stop .exception
    | (some slotId, page) =>
      let t ← Prog.get
      if ← f.appendPage page then pure ⟨t.pageCount, slotId⟩ else Prog.stop .exception

def readRecord (f : TableFile) (recordId : RecordId) : FileIo (Option Bytes) := do
  match ← f.readPage recordId.pageId with
  | none => pure none
  | some page => pure (page.read recordId.slotId)

/-- The records of a page with the slots from `slotId` on, until `callback`
stops; the flag tells whether it did not. -/
def scanSlots {α : Type} (page : Page) (pageId : Nat) (callback : α → RecordId → Bytes → α × Bool) :
    Nat → Nat → α → α × Bool
  | 0, _, a => (a, true)
  | count + 1, slotId, a =>
    match page.read slotId with
    | none => scanSlots page pageId callback count (slotId + 1) a
    | some record =>
      match callback a ⟨pageId, slotId⟩ record with
      | (a, false) => (a, false)
      | (a, true) => scanSlots page pageId callback count (slotId + 1) a

def scanPages {α : Type} (f : TableFile) (callback : α → RecordId → Bytes → α × Bool) :
    Nat → Nat → α → FileIo (α × Bool)
  | 0, _, a => pure (a, true)
  | count + 1, pageId, a => do
    match ← f.readPage pageId with
    | none => f.scanPages callback count (pageId + 1) a
    | some page =>
      match scanSlots page pageId callback page.slotCount 0 a with
      | (a, false) => pure (a, false)
      | (a, true) => f.scanPages callback count (pageId + 1) a

/-- `scan_records` with a callback that keeps its result in an `α` and returns
false to stop. -/
def scanRecordsWith {α : Type} (f : TableFile) (callback : α → RecordId → Bytes → α × Bool)
    (a : α) : FileIo (α × Bool) := do
  let s ← Prog.get
  f.scanPages callback s.pageCount 0 a

/-- `scan_records`. -/
def scanRecords (f : TableFile) : FileIo (List (RecordId × Bytes)) := do
  let (records, _) ← f.scanRecordsWith (fun records rid record => (records ++ [(rid, record)], true)) []
  pure records

def deleteRecord (f : TableFile) (recordId : RecordId) : FileIo Bool := do
  let s ← Prog.get
  if recordId.pageId ≥ s.pageCount then pure false
  else
    match ← fetchPage (f.key recordId.pageId) false with
    | none => pure false
    | some before =>
      match before.remove recordId.slotId with
      | (false, _) => do
        let _ ← unpinPage (f.key recordId.pageId) false
        pure false
      | (true, page) =>
        if !(← f.logOrRestore recordId.pageId before page) then pure false
        else unpinPage (f.key recordId.pageId) true

/-- `update_record`: the record id afterwards, `none` when the call returns false. -/
def updateRecord (f : TableFile) (recordId : RecordId) (record : Bytes) :
    FileIo (Option RecordId) := do
  let s ← Prog.get
  if recordId.pageId ≥ s.pageCount then pure none
  else
    match ← fetchPage (f.key recordId.pageId) false with
    | none => pure none
    | some before =>
      if (before.read recordId.slotId).isNone then do
        let _ ← unpinPage (f.key recordId.pageId) false
        pure none
      else
        match before.update recordId.slotId record with
        | (true, page) =>
          if !(← f.logOrRestore recordId.pageId before page) then pure none
          else if ← unpinPage (f.key recordId.pageId) true then pure (some recordId)
          else pure none
        | (false, _) => do
          let _ ← unpinPage (f.key recordId.pageId) false
          -- the insert and the delete are logged under one transaction
          let inserted ← Prog.rescue (do
            let newRecordId ← f.insertRecord record
            pure (some newRecordId)) (· == .exception) (pure none)
          match inserted with
          | none => pure none
          | some newRecordId =>
            if ← f.deleteRecord recordId then pure (some newRecordId)
            else do
              let _ ← f.deleteRecord newRecordId
              pure none

end TableFile

end ScratchDb
