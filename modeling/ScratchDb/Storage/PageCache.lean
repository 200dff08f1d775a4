import ScratchDb.Storage.WalManager

/-!
# The page cache

`page_cache.cpp` as a `TableFile` uses it: every call is given the open file
of the table. Where the code keeps a pointer to the page of a frame, the model
names the frame by its key.
-/

namespace ScratchDb

/-- `CachedPageKey`. -/
structure CachedPageKey where
  tableFile : Path
  pageId : Nat
deriving DecidableEq

/-- `CachedPageFrame`. -/
structure CachedPageFrame where
  key : CachedPageKey
  page : Page
  isDirty : Bool
  pinCount : Nat

namespace CachedPageFrame

def pin (frame : CachedPageFrame) : CachedPageFrame := { frame with pinCount := frame.pinCount + 1 }

def unpin (isDirty : Bool) (frame : CachedPageFrame) : CachedPageFrame :=
  { frame with pinCount := frame.pinCount - 1, isDirty := frame.isDirty || isDirty }

def hold (page : Page) (frame : CachedPageFrame) : CachedPageFrame := { frame with page := page }

/-- What `new_page` makes of a frame that is there. -/
def renew (page : Page) (frame : CachedPageFrame) : CachedPageFrame :=
  { frame with pinCount := frame.pinCount + 1, page := page, isDirty := true }

def clean (frame : CachedPageFrame) : CachedPageFrame := { frame with isDirty := false }

end CachedPageFrame

/-- `PageCache`: the frames of `pages_` and the keys of `lru_`, the most
recently used one first. -/
structure PageCache where
  capacity : Nat
  pages : List CachedPageFrame
  lru : List CachedPageKey
  hitCount : Nat
  missCount : Nat

/-- The order in which a walk through `pages_` meets its keys. -/
structure HashOrder where
  walk : List CachedPageKey → List CachedPageKey
  perm : ∀ keys, (walk keys).Perm keys

/-- A call of `fetch_page` or `new_page`: what it finds. -/
structure PageAccess where
  cache : PageCache
  key : CachedPageKey
  durableLsn : Nat

/-- An open table file: the world, the members of `TableFile` that change, and
the page accesses so far. -/
structure OpenFile where
  world : World
  cache : PageCache
  pageCount : Nat
  accesses : List PageAccess

abbrev FileIo := Prog Stop OpenFile

/-- Run a program that leaves the table file alone. -/
def OpenFile.io {α : Type} (m : Io α) : FileIo α := fun s =>
  ((m s.world).1, { s with world := (m s.world).2 })

namespace PageCache

/-! ## Frames -/

/-- `PageCache::PageCache`. -/
def empty (capacity : Nat) : PageCache := ⟨if capacity = 0 then 1 else capacity, [], [], 0, 0⟩

def find (c : PageCache) (key : CachedPageKey) : Option CachedPageFrame :=
  c.pages.find? fun frame => decide (frame.key = key)

/-- `lru_.push_front` and `pages_.emplace`. -/
def emplace (c : PageCache) (frame : CachedPageFrame) : PageCache :=
  { c with pages := frame :: c.pages, lru := frame.key :: c.lru }

/-- `lru_.splice`: the key of a frame moves to the front. -/
def splice (c : PageCache) (key : CachedPageKey) : PageCache :=
  { c with lru := key :: c.lru.erase key }

/-- The key leaves `lru_` where the walk from the back meets it, and its frame
leaves `pages_`. -/
def erase (c : PageCache) (key : CachedPageKey) : PageCache :=
  { c with
    pages := c.pages.filter fun frame => decide (frame.key ≠ key)
    lru := (c.lru.reverse.erase key).reverse }

/-- Change the frame of `key` in place. -/
def change (c : PageCache) (key : CachedPageKey) (f : CachedPageFrame → CachedPageFrame) :
    PageCache :=
  { c with pages := c.pages.map fun frame => if frame.key = key then f frame else frame }

/-- The first frame from the back of `lru_` that is not pinned. -/
def victim (c : PageCache) : Option CachedPageFrame :=
  (c.lru.reverse.filterMap c.find).find? fun frame => decide (frame.pinCount = 0)

/-- `clear`. -/
def cleared (c : PageCache) : PageCache := { c with pages := [], lru := [] }

/-! ## The calls -/

def modifyCache (f : PageCache → PageCache) : FileIo Unit :=
  Prog.modify fun s => { s with cache := f s.cache }

/-- `write_frame`; `wal` tells whether it is given a WAL manager. -/
def writeFrame (frame : CachedPageFrame) (wal : Bool) : FileIo Bool := do
  let flushed ← if wal then OpenFile.io (WalManager.flushThrough frame.page.pageLsn) else pure true
  if !flushed then pure false
  else OpenFile.io (perform (.writePage frame.key.tableFile frame.key.pageId frame.page))

def evictOnePage (wal : Bool) : FileIo Bool := do
  let s ← Prog.get
  match s.cache.victim with
  | none => pure false
  | some frame =>
    let written ← if frame.isDirty then writeFrame frame wal else pure true
    if !written then pure false
    else do
      modifyCache (·.erase frame.key)
      pure true

/-- The loop that makes room. Every round takes a frame away, so it ends
within as many rounds as there are frames. -/
def makeRoom (wal : Bool) : Nat → FileIo Bool
  | 0 => pure true
  | rounds + 1 => do
    let s ← Prog.get
    if s.cache.pages.length < s.cache.capacity then pure true
    else if !(← evictOnePage wal) then pure false
    else makeRoom wal rounds

/-- `read_page_from_disk`. -/
def readPageFromDisk (key : CachedPageKey) : FileIo (Option Page) := do
  let s ← Prog.get
  pure (if key.pageId < s.world.disk.fs.pageCount key.tableFile then
    some (s.world.disk.fs.pageAt key.tableFile key.pageId) else none)

def noteAccess (key : CachedPageKey) : FileIo Unit :=
  Prog.modify fun s =>
    { s with accesses := s.accesses ++ [⟨s.cache, key, s.world.manager.durableLsn⟩] }

/-- `fetch_page`: the page of the frame it returns, which is pinned. -/
def fetchPage (key : CachedPageKey) (wal : Bool) : FileIo (Option Page) := do
  noteAccess key
  let s ← Prog.get
  match s.cache.find key with
  | some frame => do
    modifyCache fun c =>
      { (c.change key .pin).splice key with hitCount := c.hitCount + 1 }
    pure (some frame.page)
  | none => do
    modifyCache fun c => { c with missCount := c.missCount + 1 }
    if !(← makeRoom wal s.cache.pages.length) then pure none
    else
      match ← readPageFromDisk key with
      | none => pure none
      | some page => do
        modifyCache (·.emplace ⟨key, page, false, 1⟩)
        pure (some page)

/-- `new_page`. -/
def newPage (key : CachedPageKey) (page : Page) (wal : Bool) : FileIo Bool := do
  noteAccess key
  let s ← Prog.get
  match s.cache.find key with
  | some _ => do
    modifyCache fun c => (c.change key (.renew page)).splice key
    pure true
  | none =>
    if !(← makeRoom wal s.cache.pages.length) then pure false
    else do
      modifyCache (·.emplace ⟨key, page, true, 1⟩)
      pure true

/-- Write the page of a frame through the pointer `fetch_page` returned. -/
def setPage (key : CachedPageKey) (page : Page) : FileIo Unit :=
  modifyCache (·.change key (.hold page))

def unpinPage (key : CachedPageKey) (isDirty : Bool) : FileIo Bool := do
  let s ← Prog.get
  match s.cache.find key with
  | none => pure false
  | some frame =>
    if frame.pinCount = 0 then pure false
    else do
      modifyCache (·.change key (.unpin isDirty))
      pure true

/-- The loop of `flush_all_pages` over the keys of `pages_`. -/
def flushLoop (wal : Bool) : List CachedPageKey → FileIo Bool
  | [] => pure true
  | key :: keys => do
    let s ← Prog.get
    match s.cache.find key with
    | none => flushLoop wal keys
    | some frame =>
      if !frame.isDirty then flushLoop wal keys
      else if ← writeFrame frame wal then do
        modifyCache (·.change key .clean)
        flushLoop wal keys
      else do
        let _ ← flushLoop wal keys
        pure false

def flushAllPages (order : HashOrder) (wal : Bool) : FileIo Bool := do
  let s ← Prog.get
  flushLoop wal (order.walk (s.cache.pages.map (·.key)))

end PageCache

end ScratchDb
