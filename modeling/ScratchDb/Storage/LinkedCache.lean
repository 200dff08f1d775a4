import ScratchDb.Lib.LinkedList
import ScratchDb.Storage.PageCache

/-!
# The page cache with its linked list

`page_cache.cpp` with all it keeps: the list `lru_`, the frames of `pages_` with
their positions in the list, and the counters. Reads, writes and the log may
fail: what the system answers is open. Where the code keeps a pointer to the
page of a frame, the model names the frame by its key.
-/

namespace ScratchDb

/-- `CachedPageFrame` with its `lru_position`. -/
structure LinkedFrame extends CachedPageFrame where
  lruPosition : Nat

namespace LinkedFrame

/-- `++pin_count`, in 32 bits. -/
def pin (frame : LinkedFrame) : LinkedFrame :=
  { frame with pinCount := (frame.pinCount + 1) % 2 ^ 32 }

def renew (page : Page) (frame : LinkedFrame) : LinkedFrame :=
  { frame with pinCount := (frame.pinCount + 1) % 2 ^ 32, page := page, isDirty := true }

def unpin (isDirty : Bool) (frame : LinkedFrame) : LinkedFrame :=
  { frame with pinCount := frame.pinCount - 1, isDirty := frame.isDirty || isDirty }

def hold (page : Page) (frame : LinkedFrame) : LinkedFrame := { frame with page := page }

def clean (frame : LinkedFrame) : LinkedFrame := { frame with isDirty := false }

def moved (position : Nat) (frame : LinkedFrame) : LinkedFrame :=
  { frame with lruPosition := position }

end LinkedFrame

/-- The members of `PageCache`. -/
structure LinkedCache where
  capacity : Nat
  lru : LinkedList CachedPageKey
  pages : List LinkedFrame
  hitCount : Nat
  missCount : Nat

namespace LinkedCache

def empty (capacity : Nat) : LinkedCache := ⟨if capacity = 0 then 1 else capacity, .empty, [], 0, 0⟩

def find (c : LinkedCache) (key : CachedPageKey) : Option LinkedFrame :=
  c.pages.find? fun frame => decide (frame.key = key)

/-- Change the frame of `key` in place. -/
def change (c : LinkedCache) (key : CachedPageKey) (f : LinkedFrame → LinkedFrame) : LinkedCache :=
  { c with pages := c.pages.map fun frame => if frame.key = key then f frame else frame }

/-- The node at the position of a frame is spliced to the front. -/
def touch (c : LinkedCache) (frame : LinkedFrame) : LinkedCache :=
  let lru := c.lru.splice frame.lruPosition
  { c.change frame.key (.moved lru.front) with lru := lru }

/-- `lru_.push_front` and `pages_.emplace`. -/
def emplace (c : LinkedCache) (frame : CachedPageFrame) : LinkedCache :=
  let lru := c.lru.pushFront frame.key
  { c with
    lru := lru
    pages := if (c.find frame.key).isSome then c.pages else ⟨frame, lru.front⟩ :: c.pages }

/-- The node leaves `lru_`, and the frame leaves `pages_`. -/
def erase (c : LinkedCache) (position : Nat) (key : CachedPageKey) : LinkedCache :=
  { c with
    lru := c.lru.erase position
    pages := c.pages.filter fun frame => decide (frame.key ≠ key) }

def clear (c : LinkedCache) : LinkedCache := { c with pages := [], lru := .empty }

/-- The keys of the frames are listed once each, where the frames say, and there are not too many. -/
structure Kept (c : LinkedCache) : Prop where
  listed : c.lru.values.Perm (c.pages.map (·.key))
  once : c.lru.values.Nodup
  positions : ∀ frame ∈ c.pages, c.lru.get? frame.lruPosition = some frame.key
  room : c.pages.length ≤ c.capacity

end LinkedCache

/-- The answers of the system in the states of `σ`: the log manager, `open`, `close`, and whether all
bytes of a block were written or read. A descriptor below 0 is an error. -/
structure CacheSystem (σ : Type) where
  flushThrough : Nat → σ → Bool × σ
  openFile : Path → σ → Int × σ
  close : Int → σ → σ
  fullWrite : Int → Page → Nat → σ → Bool × σ
  fullRead : Int → Nat → σ → Option Page × σ

/-- The cache in its system, with the frames that were written, and the keys of the pages that were
handed out, so far. -/
structure BookedCache (σ : Type) where
  cache : LinkedCache
  system : σ
  written : List CachedPageFrame
  uses : List CachedPageKey

namespace BookedCache

variable {σ : Type}

def onCache (s : BookedCache σ) (f : LinkedCache → LinkedCache) : BookedCache σ :=
  { s with cache := f s.cache }

/-- The descriptor of the call, or the file opened for this once. -/
def descriptor (sys : CacheSystem σ) (s : BookedCache σ) (file : Path) (fd : Option Int) :
    Int × BookedCache σ :=
  match fd with
  | some fd => (fd, s)
  | none =>
    let opened := sys.openFile file s.system
    (opened.1, { s with system := opened.2 })

/-- A file that was opened for this once is closed. -/
def release (sys : CacheSystem σ) (s : BookedCache σ) (opened : Int) (fd : Option Int) :
    BookedCache σ :=
  if fd.isSome then s else { s with system := sys.close opened s.system }

/-- `write_frame`; `wal` tells whether it is given a WAL manager. -/
def writeFrame (sys : CacheSystem σ) (s : BookedCache σ) (frame : CachedPageFrame) (fd : Option Int)
    (wal : Bool) : Bool × BookedCache σ :=
  let flushed := if wal then sys.flushThrough frame.page.pageLsn s.system else (true, s.system)
  let s := { s with system := flushed.2 }
  if !flushed.1 then (false, s)
  else
    let opened := s.descriptor sys frame.key.tableFile fd
    if opened.1 < 0 then (false, opened.2)
    else
      let ok := sys.fullWrite opened.1 frame.page (frame.key.pageId * pageSize) opened.2.system
      let s := { opened.2 with
        system := ok.2
        written := if ok.1 then opened.2.written ++ [frame] else opened.2.written }
      (ok.1, s.release sys opened.1 fd)

/-- `read_page_from_disk`. -/
def readPageFromDisk (sys : CacheSystem σ) (s : BookedCache σ) (key : CachedPageKey)
    (fd : Option Int) : Option Page × BookedCache σ :=
  let opened := s.descriptor sys key.tableFile fd
  if opened.1 < 0 then (none, opened.2)
  else
    let page := sys.fullRead opened.1 (key.pageId * pageSize) opened.2.system
    (page.1, { opened.2 with system := page.2 }.release sys opened.1 fd)

/-- The loop of `evict_one_page` over the nodes of `lru_`, the last one first. -/
def evictFrom (sys : CacheSystem σ) (fd : Option Int) (wal : Bool) :
    List (Nat × CachedPageKey) → BookedCache σ → Bool × BookedCache σ
  | [], s => (false, s)
  | node :: nodes, s =>
    match s.cache.find node.2 with
    | none => evictFrom sys fd wal nodes s
    | some frame =>
      if frame.pinCount ≠ 0 then evictFrom sys fd wal nodes s
      else
        let wrote := if frame.isDirty then s.writeFrame sys frame.toCachedPageFrame fd wal
          else (true, s)
        if !wrote.1 then (false, wrote.2) else (true, wrote.2.onCache (·.erase node.1 frame.key))

def evictOnePage (sys : CacheSystem σ) (s : BookedCache σ) (fd : Option Int) (wal : Bool) :
    Bool × BookedCache σ :=
  evictFrom sys fd wal s.cache.lru.nodes.reverse s

/-- The loop that makes room. Every round takes a frame away, so it ends
within as many rounds as there are frames. -/
def makeRoom (sys : CacheSystem σ) (fd : Option Int) (wal : Bool) :
    Nat → BookedCache σ → Bool × BookedCache σ
  | 0, s => (true, s)
  | rounds + 1, s =>
    if s.cache.pages.length < s.cache.capacity then (true, s)
    else
      let evicted := s.evictOnePage sys fd wal
      if !evicted.1 then (false, evicted.2) else makeRoom sys fd wal rounds evicted.2

/-- A page is handed out. -/
def use (s : BookedCache σ) (key : CachedPageKey) : BookedCache σ :=
  { s with uses := s.uses ++ [key] }

/-- `fetch_page`; both of its public overloads give it no WAL manager. -/
def fetchPage (sys : CacheSystem σ) (s : BookedCache σ) (key : CachedPageKey) (fd : Option Int) :
    Option Page × BookedCache σ :=
  match s.cache.find key with
  | some frame =>
    (some frame.page, (s.onCache fun c =>
      ({ c with hitCount := c.hitCount + 1 }.change key .pin).touch frame).use key)
  | none =>
    let room := (s.onCache fun c => { c with missCount := c.missCount + 1 }).makeRoom sys fd false
      s.cache.pages.length
    if !room.1 then (none, room.2)
    else
      let page := room.2.readPageFromDisk sys key fd
      match page.1 with
      | none => (none, page.2)
      | some content => (some content, (page.2.onCache (·.emplace ⟨key, content, false, 1⟩)).use key)

/-- `new_page`; `false` for a null pointer. -/
def newPage (sys : CacheSystem σ) (s : BookedCache σ) (key : CachedPageKey) (page : Page)
    (fd : Option Int) : Bool × BookedCache σ :=
  match s.cache.find key with
  | some frame => (true, (s.onCache fun c => (c.change key (.renew page)).touch frame).use key)
  | none =>
    let room := s.makeRoom sys fd false s.cache.pages.length
    if !room.1 then (false, room.2)
    else (true, (room.2.onCache (·.emplace ⟨key, page, true, 1⟩)).use key)

/-- A change of the page through the pointer that `fetch_page` or `new_page` returned. -/
def setPage (s : BookedCache σ) (key : CachedPageKey) (page : Page) : BookedCache σ :=
  s.onCache (·.change key (.hold page))

def unpinPage (s : BookedCache σ) (key : CachedPageKey) (isDirty : Bool) : Bool × BookedCache σ :=
  match s.cache.find key with
  | none => (false, s)
  | some frame =>
    if frame.pinCount = 0 then (false, s)
    else (true, s.onCache (·.change key (.unpin isDirty)))

def flushPage (sys : CacheSystem σ) (s : BookedCache σ) (key : CachedPageKey) (fd : Option Int)
    (wal : Bool) : Bool × BookedCache σ :=
  match s.cache.find key with
  | none => (false, s)
  | some frame =>
    if !frame.isDirty then (true, s)
    else
      let wrote := s.writeFrame sys frame.toCachedPageFrame fd wal
      if !wrote.1 then (false, wrote.2) else (true, wrote.2.onCache (·.change key .clean))

/-- The loop of `flush_all_pages` over the keys of `pages_`: each of them is flushed. -/
def flushLoop (sys : CacheSystem σ) (fd : Option Int) (wal : Bool) :
    List CachedPageKey → BookedCache σ → Bool × BookedCache σ
  | [], s => (true, s)
  | key :: keys, s =>
    let flushed := s.flushPage sys key fd wal
    let rest := flushLoop sys fd wal keys flushed.2
    (flushed.1 && rest.1, rest.2)

def flushAllPages (sys : CacheSystem σ) (s : BookedCache σ) (order : HashOrder) (fd : Option Int)
    (wal : Bool) : Bool × BookedCache σ :=
  flushLoop sys fd wal (order.walk (s.cache.pages.map (·.key))) s

/-! ## Runs -/

inductive BookedCall where
  | fetchPage (key : CachedPageKey) (fd : Option Int)
  | newPage (key : CachedPageKey) (page : Page) (fd : Option Int)
  | setPage (key : CachedPageKey) (page : Page)
  | unpinPage (key : CachedPageKey) (isDirty : Bool)
  | flushPage (key : CachedPageKey) (fd : Option Int) (wal : Bool)
  | flushAllPages (order : HashOrder) (fd : Option Int) (wal : Bool)
  | clear

def step (sys : CacheSystem σ) (s : BookedCache σ) : BookedCall → BookedCache σ
  | .fetchPage key fd => (s.fetchPage sys key fd).2
  | .newPage key page fd => (s.newPage sys key page fd).2
  | .setPage key page => s.setPage key page
  | .unpinPage key isDirty => (s.unpinPage key isDirty).2
  | .flushPage key fd wal => (s.flushPage sys key fd wal).2
  | .flushAllPages order fd wal => (s.flushAllPages sys order fd wal).2
  | .clear => s.onCache .clear

def run (sys : CacheSystem σ) (s : BookedCache σ) (calls : List BookedCall) : BookedCache σ :=
  calls.foldl (step sys) s

/-- A new cache. -/
def start (capacity : Nat) (system : σ) : BookedCache σ := ⟨.empty capacity, system, [], []⟩

/-! ## Leaving the cache -/

/-- The frame may leave the cache between two states: it is the least recently used one that is not
pinned, and a dirty one has been written. -/
structure Evictable (s t : BookedCache σ) (frame : LinkedFrame) : Prop where
  unpinned : frame.pinCount = 0
  leastRecent : ∀ g ∈ s.cache.pages, g.pinCount = 0 → g.key ≠ frame.key →
    UsedAfter s.uses frame.key g.key
  saved : frame.isDirty = true →
    ∃ saved, t.written = s.written ++ saved ∧ frame.toCachedPageFrame ∈ saved

/-- Only frames that may leave have left. -/
def Guarded (s t : BookedCache σ) : Prop :=
  ∀ frame ∈ s.cache.pages, (∃ g ∈ t.cache.pages, g.key = frame.key) ∨ Evictable s t frame

end BookedCache

end ScratchDb
