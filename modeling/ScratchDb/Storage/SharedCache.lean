import Mathlib.Logic.Function.Basic
import ScratchDb.Storage.PageCache

/-!
# A page cache of several files

`page_cache.cpp` with both overloads of its calls: by the path alone, and with a
descriptor that the caller has open. A frame is written back through the
descriptor of the call at hand, whatever file the frame belongs to. Files are
their 4096-byte blocks; reads and writes of an open file succeed, and a missing
file cannot be opened.
-/

namespace ScratchDb

/-- A `pwrite` of a frame: whose frame, and where it went. -/
structure WriteBack where
  key : CachedPageKey
  file : Path
  pageId : Nat
deriving DecidableEq

/-- The cache, the files on disk, and what was written back so far. -/
structure SharedCache where
  cache : PageCache
  files : Path → Option (List Page)
  writes : List WriteBack

namespace SharedCache

/-- The block of a page, zeros where its file ends before it. -/
def onDisk (s : SharedCache) (key : CachedPageKey) : Page :=
  ((s.files key.tableFile).getD []).getD key.pageId Page.zero

def onCache (s : SharedCache) (f : PageCache → PageCache) : SharedCache :=
  { s with cache := f s.cache }

/-- `write_frame`; `fd` is the file that the descriptor is open on. `none` when it returns false. -/
def writeFrame (s : SharedCache) (frame : CachedPageFrame) (fd : Option Path) :
    Option SharedCache :=
  let file := fd.getD frame.key.tableFile
  (s.files file).map fun blocks =>
    { s with
      files := Function.update s.files file (some (writeBlock blocks frame.key.pageId frame.page))
      writes := s.writes ++ [⟨frame.key, file, frame.key.pageId⟩] }

/-- `evict_one_page`; `none` when it returns false. -/
def evictOnePage (s : SharedCache) (fd : Option Path) : Option SharedCache :=
  s.cache.victim.bind fun frame =>
    (if frame.isDirty then s.writeFrame frame fd else some s).map (·.onCache (·.erase frame.key))

/-- The loop that makes room, within as many rounds as there are frames. -/
def makeRoom (fd : Option Path) : Nat → SharedCache → Bool × SharedCache
  | 0, s => (true, s)
  | rounds + 1, s =>
    if s.cache.pages.length < s.cache.capacity then (true, s)
    else
      match s.evictOnePage fd with
      | none => (false, s)
      | some s => makeRoom fd rounds s

/-- `read_page_from_disk`. -/
def readPageFromDisk (s : SharedCache) (key : CachedPageKey) (fd : Option Path) : Option Page :=
  (s.files (fd.getD key.tableFile)).bind (·[key.pageId]?)

/-- `fetch_page`: the page of the frame it returns, which is pinned. -/
def fetchPage (s : SharedCache) (key : CachedPageKey) (fd : Option Path) :
    Option Page × SharedCache :=
  match s.cache.find key with
  | some frame =>
    (some frame.page,
      s.onCache fun c => { (c.change key .pin).splice key with hitCount := c.hitCount + 1 })
  | none =>
    let missed := s.onCache fun c => { c with missCount := c.missCount + 1 }
    let room := missed.makeRoom fd s.cache.pages.length
    if room.1 then
      match room.2.readPageFromDisk key fd with
      | none => (none, room.2)
      | some page => (some page, room.2.onCache (·.emplace ⟨key, page, false, 1⟩))
    else (none, room.2)

/-- `new_page`; `false` for a null pointer. -/
def newPage (s : SharedCache) (key : CachedPageKey) (page : Page) (fd : Option Path) :
    Bool × SharedCache :=
  match s.cache.find key with
  | some _ => (true, s.onCache fun c => (c.change key (.renew page)).splice key)
  | none =>
    let room := s.makeRoom fd s.cache.pages.length
    if room.1 then (true, room.2.onCache (·.emplace ⟨key, page, true, 1⟩)) else (false, room.2)

/-- A change of the page through the pointer that `fetch_page` or `new_page` returned. -/
def setPage (s : SharedCache) (key : CachedPageKey) (page : Page) : SharedCache :=
  s.onCache (·.change key (.hold page))

def unpinPage (s : SharedCache) (key : CachedPageKey) (isDirty : Bool) : Bool × SharedCache :=
  match s.cache.find key with
  | none => (false, s)
  | some frame =>
    if frame.pinCount = 0 then (false, s)
    else (true, s.onCache (·.change key (.unpin isDirty)))

def flushPage (s : SharedCache) (key : CachedPageKey) (fd : Option Path) : Bool × SharedCache :=
  match s.cache.find key with
  | none => (false, s)
  | some frame =>
    if !frame.isDirty then (true, s)
    else
      match s.writeFrame frame fd with
      | none => (false, s)
      | some s => (true, s.onCache (·.change key .clean))

/-- The loop of `flush_all_pages` over the keys of `pages_`: each of them is flushed. -/
def flushLoop (fd : Option Path) : List CachedPageKey → SharedCache → Bool × SharedCache
  | [], s => (true, s)
  | key :: keys, s =>
    let flushed := s.flushPage key fd
    let rest := flushLoop fd keys flushed.2
    (flushed.1 && rest.1, rest.2)

def flushAllPages (s : SharedCache) (order : HashOrder) (fd : Option Path) : Bool × SharedCache :=
  flushLoop fd (order.walk (s.cache.pages.map (·.key))) s

end SharedCache

/-! ## Calls -/

/-- A call, with the file that its descriptor is open on where it has one. -/
inductive CacheCall where
  | fetchPage (key : CachedPageKey) (fd : Option Path)
  | newPage (key : CachedPageKey) (page : Page) (fd : Option Path)
  | setPage (key : CachedPageKey) (page : Page)
  | unpinPage (key : CachedPageKey) (isDirty : Bool)
  | flushPage (key : CachedPageKey) (fd : Option Path)
  | flushAllPages (fd : Option Path)

/-- The cache beside what its callers expect of it: the content last stored for each page, and which
pages were changed through their pointer and not yet unpinned as dirty. `fetches` are the pages that
`fetch_page` returned, each with the content last stored. -/
structure CacheRun where
  state : SharedCache
  stored : CachedPageKey → Page
  unmarked : CachedPageKey → Bool
  fetches : List (Page × Page)

namespace CacheRun

/-- A new cache over these files. -/
def start (capacity : Nat) (files : Path → Option (List Page)) : CacheRun :=
  let state : SharedCache := ⟨.empty capacity, files, []⟩
  ⟨state, state.onDisk, fun _ => false, []⟩

def step (order : HashOrder) (r : CacheRun) : CacheCall → CacheRun
  | .fetchPage key fd =>
    let result := r.state.fetchPage key fd
    { r with
      state := result.2
      fetches := r.fetches ++ (result.1.map fun page => (page, r.stored key)).toList }
  | .newPage key page fd =>
    let result := r.state.newPage key page fd
    if result.1 then
      { r with
        state := result.2
        stored := Function.update r.stored key page
        unmarked := Function.update r.unmarked key false }
    else { r with state := result.2 }
  | .setPage key page =>
    { r with
      state := r.state.setPage key page
      stored := Function.update r.stored key page
      unmarked := Function.update r.unmarked key true }
  | .unpinPage key isDirty =>
    let result := r.state.unpinPage key isDirty
    { r with
      state := result.2
      unmarked := if result.1 && isDirty then Function.update r.unmarked key false else r.unmarked }
  | .flushPage key fd => { r with state := (r.state.flushPage key fd).2 }
  | .flushAllPages fd => { r with state := (r.state.flushAllPages order fd).2 }

def run (order : HashOrder) (r : CacheRun) : List CacheCall → CacheRun
  | [] => r
  | call :: calls => (r.step order call).run order calls

/-- The calls, one after the other, are `allowed` in the states that they are made in. -/
def All (order : HashOrder) (allowed : CacheRun → CacheCall → Prop) : CacheRun → List CacheCall → Prop
  | _, [] => True
  | r, call :: calls => allowed r call ∧ (r.step order call).All order allowed calls

/-- How the cache is used: a descriptor is open on the file named in the call, a page is changed while
it is pinned, and the last unpin of a changed page says so. -/
def Proper (r : CacheRun) : CacheCall → Prop
  | .fetchPage key fd | .newPage key _ fd | .flushPage key fd =>
    ∀ file, fd = some file → file = key.tableFile ∧ (r.state.files file).isSome = true
  | .setPage key _ => ∃ frame, r.state.cache.find key = some frame ∧ 0 < frame.pinCount
  | .unpinPage key isDirty => isDirty = false → r.unmarked key = true →
      ∀ frame, r.state.cache.find key = some frame → frame.pinCount ≠ 1
  | .flushAllPages fd => ∀ file, fd = some file → (r.state.files file).isSome = true

/-- Each write went to the block of its frame, and each fetch returned what was last stored. -/
def Transparent (r : CacheRun) : Prop :=
  (∀ w ∈ r.state.writes, w.file = w.key.tableFile ∧ w.pageId = w.key.pageId) ∧
    ∀ f ∈ r.fetches, f.1 = f.2

/-- No dirty page of another file is written through the descriptor of the call: neither the page
that leaves the cache to make room, nor those that are flushed. -/
def OwnFile (r : CacheRun) : CacheCall → Prop
  | .fetchPage key fd | .newPage key _ fd =>
    ∀ file, fd = some file → r.state.cache.find key = none →
      r.state.cache.capacity ≤ r.state.cache.pages.length →
      ∀ victim, r.state.cache.victim = some victim → victim.isDirty = true →
        victim.key.tableFile = file
  | .flushAllPages fd => ∀ file, fd = some file → ∀ frame ∈ r.state.cache.pages,
      frame.isDirty = true → frame.key.tableFile = file
  | .setPage _ _ | .unpinPage _ _ | .flushPage _ _ => True

end CacheRun

end ScratchDb
