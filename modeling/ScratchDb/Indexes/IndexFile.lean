import Mathlib.Data.List.Sort
import ScratchDb.Indexes.IndexEntry
import ScratchDb.Lib.Packing
import ScratchDb.Storage.PageBytes

/-!
# Index files

`IndexFile`: the entries of an index, kept in memory and written out after
each change as a B+ tree of pages. Page 0 is the header, the leaves are the
pages from 1 on, and the inner levels follow them. Searches read the pages.
A write of a page is taken to succeed, and page numbers are kept as they are
counted, before the cast to `uint32_t`.
-/

namespace ScratchDb

/-! ## Constants -/

def indexMagic : Nat := 0x58444953
def indexVersion : Nat := 2
def pageTypeHeader : UInt8 := 1
def pageTypeLeaf : UInt8 := 2
def pageTypeInternal : UInt8 := 3
def noPage : Nat := 2 ^ 32 - 1
def leafHeaderSize : Nat := 12
def entryHeaderSize : Nat := 8
def internalHeaderSize : Nat := 7
def internalChildHeaderSize : Nat := 6
def uint16Max : Nat := 2 ^ 16 - 1

structure PageSummary where
  pageId : Nat
  firstKey : Bytes
deriving DecidableEq, Repr

/-- The members of an `IndexFile`, and the pages of its file: zeros behind the end. -/
structure IndexFile where
  entries : List IndexEntry
  pageCount : Nat
  rootPageId : Nat
  treeHeight : Nat
  pages : Nat → Page

namespace IndexFile

/-! ## Cutting the entries into pages -/

def entryFitsEmptyLeaf (entry : IndexEntry) : Bool :=
  entry.key.length ≤ uint16Max && leafHeaderSize + entryHeaderSize + entry.key.length ≤ pageSize

def encodedSize (entries : List IndexEntry) : Nat :=
  let size := leafHeaderSize + (entries.map fun e => entryHeaderSize + e.key.length).sum
  if size > uint16Max then uint16Max else size

/-- `split_leaf_entries`: each leaf takes entries until one does not fit. -/
def splitLeafEntries (entries : List IndexEntry) : List (List IndexEntry) :=
  if entries.all entryFitsEmptyLeaf then
    Packing.pack (fun leaf => encodedSize leaf ≤ pageSize) entries
  else []

/-- The `size` that `write_pages` counts for the children of an inner page. -/
def internalSize (children : List PageSummary) : Nat :=
  internalHeaderSize + (children.map fun c => internalChildHeaderSize + c.firstKey.length).sum

/-- The inner pages of a level. `flush_internal` writes no page without children. -/
def internalGroups (level : List PageSummary) : List (List PageSummary) :=
  (Packing.pack (fun children => internalSize children ≤ pageSize) level).filter fun g => !g.isEmpty

/-! ## Pages -/

/-- `page_type`, after the magic number. -/
def typedPage (pageType : UInt8) : Page :=
  (Page.zero.writeUint 0 4 indexMagic).copy 4 [pageType]

/-- The loop over the entries of a leaf, from `offset` on; `none` when it returns false. -/
def writeEntries (page : Page) (offset : Nat) : List IndexEntry → Option Page
  | [] => some page
  | entry :: rest =>
    if entry.key.length > uint16Max ∨ offset + entryHeaderSize + entry.key.length > pageSize then none
    else
      let page := page.writeUint offset 2 entry.key.length
      let page := page.writeUint (offset + 2) 4 entry.recordId.pageId
      let page := page.writeUint (offset + 6) 2 entry.recordId.slotId
      let page := page.copy (offset + entryHeaderSize) entry.key
      writeEntries page (offset + entryHeaderSize + entry.key.length) rest

def leafPage (nextPageId : Nat) (leaf : List IndexEntry) : Option Page :=
  let page := (typedPage pageTypeLeaf).writeUint 5 4 nextPageId
  writeEntries (page.writeUint 9 2 leaf.length) leafHeaderSize leaf

/-- The loop over the children of an inner page. -/
def writeChildren (page : Page) (offset : Nat) : List PageSummary → Option Page
  | [] => some page
  | child :: rest =>
    if child.firstKey.length > uint16Max ∨
        offset + internalChildHeaderSize + child.firstKey.length > pageSize then none
    else
      let page := page.writeUint offset 4 child.pageId
      let page := page.writeUint (offset + 4) 2 child.firstKey.length
      let page := page.copy (offset + internalChildHeaderSize) child.firstKey
      writeChildren page (offset + internalChildHeaderSize + child.firstKey.length) rest

def internalPage (children : List PageSummary) : Option Page :=
  writeChildren ((typedPage pageTypeInternal).writeUint 5 2 children.length) internalHeaderSize
    children

def headerPage (rootPageId pageCount treeHeight : Nat) : Page :=
  let page := (typedPage pageTypeHeader).writeUint 5 2 indexVersion
  let page := page.writeUint 7 4 rootPageId
  let page := page.writeUint 11 4 pageCount
  page.writeUint 15 2 treeHeight

/-! ## `write_pages` -/

/-- The key that stands for a leaf in the level above. -/
def firstKey (leaf : List IndexEntry) : Bytes := (leaf.head?.map IndexEntry.key).getD []

/-- The leaves, from page `pageId` on. -/
def writeLeaves (pages : Nat → Page) (pageId : Nat) :
    List (List IndexEntry) → Option ((Nat → Page) × List PageSummary)
  | [] => some (pages, [])
  | leaf :: rest => do
    let page ← leafPage (if rest.isEmpty then noPage else pageId + 1) leaf
    let (pages, level) ← writeLeaves (Function.update pages pageId page) (pageId + 1) rest
    some (pages, ⟨pageId, firstKey leaf⟩ :: level)

/-- The inner pages of one level, from page `nextPageId` on. -/
def writeGroups (pages : Nat → Page) (nextPageId : Nat) :
    List (List PageSummary) → Option ((Nat → Page) × List PageSummary)
  | [] => some (pages, [])
  | children :: rest => do
    let page ← internalPage children
    let (pages, level) ← writeGroups (Function.update pages nextPageId page) (nextPageId + 1) rest
    some (pages, ⟨nextPageId, (children.head?.map PageSummary.firstKey).getD []⟩ :: level)

/-- What the loop over the levels has written: the pages, the level on top, the number of pages and
the height. -/
structure Levels where
  pages : Nat → Page
  level : List PageSummary
  nextPageId : Nat
  treeHeight : Nat

/-- The loop over the levels, for `fuel` rounds; `none` when it needs more, as it does for ever when
no two children share a page, and when a page cannot be written. -/
def writeLevels : Nat → Levels → Option Levels
  | 0, _ => none
  | fuel + 1, s =>
    if s.level.length ≤ 1 then some s
    else do
      let groups := internalGroups s.level
      let (pages, level) ← writeGroups s.pages s.nextPageId groups
      writeLevels fuel ⟨pages, level, s.nextPageId + groups.length, u16 (s.treeHeight + 1)⟩

/-- `write_pages`, and so `flush`: `none` when it returns false or does not return. -/
def writePages (fuel : Nat) (f : IndexFile) : Option IndexFile := do
  let leaves := splitLeafEntries f.entries
  let (pages, level) ← if leaves.isEmpty then none else writeLeaves f.pages 1 leaves
  let s ← writeLevels fuel ⟨pages, level, leaves.length + 1, 1⟩
  let root ← s.level.head?
  some {
    entries := f.entries
    rootPageId := root.pageId
    pageCount := s.nextPageId
    treeHeight := s.treeHeight
    pages := Function.update s.pages 0 (headerPage root.pageId s.nextPageId s.treeHeight) }

/-! ## Reading pages -/

/-- The entries that a loop over a leaf page meets, `none` where it meets the end of the page. -/
def readEntries (page : Page) : Nat → Nat → List (Option IndexEntry)
  | 0, _ => []
  | count + 1, offset =>
    if offset + entryHeaderSize > pageSize then [none]
    else
      let keySize := page.readUint offset 2
      if offset + entryHeaderSize + keySize > pageSize then [none]
      else
        some {
          key := page.slice (offset + entryHeaderSize) keySize
          recordId := ⟨page.readUint (offset + 2) 4, page.readUint (offset + 6) 2⟩
          fits := ⟨page.readUint_lt _ 4, page.readUint_lt _ 2⟩ } ::
        readEntries page count (offset + entryHeaderSize + keySize)

/-- The children that the loop over an inner page meets. -/
def readChildren (page : Page) : Nat → Nat → List (Option PageSummary)
  | 0, _ => []
  | count + 1, offset =>
    if offset + internalChildHeaderSize > pageSize then [none]
    else
      let keySize := page.readUint (offset + 4) 2
      if offset + internalChildHeaderSize + keySize > pageSize then [none]
      else
        some ⟨page.readUint offset 4, page.slice (offset + internalChildHeaderSize) keySize⟩ ::
          readChildren page count (offset + internalChildHeaderSize + keySize)

/-- The entries of a leaf page. -/
def leafEntries (page : Page) : List (Option IndexEntry) :=
  readEntries page (page.readUint 9 2) leafHeaderSize

/-- The child that `find_leaf_page` selects, after the children before it selected `selected`; the
first child is taken whatever its separator is. -/
def selectChild (key : Bytes) : Bool → Nat → List (Option PageSummary) → Nat
  | _, selected, [] => selected
  | _, _, none :: _ => noPage
  | first, selected, some child :: rest =>
    if first ∨ child.firstKey ≤ key then selectChild key false child.pageId rest else selected

/-- `find_leaf_page` from a page on, for `fuel` pages. -/
def findLeafPage (f : IndexFile) (key : Bytes) : Nat → Nat → Option Nat
  | 0, _ => none
  | fuel + 1, pageId =>
    if pageId = noPage ∨ f.pageCount ≤ pageId then some noPage
    else
      let page := f.pages pageId
      if page.readUint 0 4 ≠ indexMagic then some noPage
      else if page.get 4 = pageTypeLeaf then some pageId
      else if page.get 4 ≠ pageTypeInternal then some noPage
      else
        let childCount := page.readUint 5 2
        if childCount = 0 then some noPage
        else
          findLeafPage f key fuel
            (selectChild key true noPage (readChildren page childCount internalHeaderSize))

/-! ## Searches -/

/-- The loop of `find_from_pages` over the entries of a leaf: an error is a return from the
function. Otherwise the record ids so far, and `maybe_next_leaf`. -/
def findInLeaf (key : Bytes) (result : List RecordId) (maybeNextLeaf : Bool) :
    List (Option IndexEntry) → Except (List RecordId) (List RecordId × Bool)
  | [] => .ok (result, maybeNextLeaf)
  | none :: _ => .error []
  | some entry :: rest =>
    if entry.key = key then findInLeaf key (result ++ [entry.recordId]) true rest
    else if key < entry.key then .error result
    else findInLeaf key result maybeNextLeaf rest

/-- The loop of `find_from_pages` over the leaves, for `fuel` leaves. -/
def findFromPages (pages : Nat → Page) (key : Bytes) :
    Nat → Nat → List RecordId → Option (List RecordId)
  | 0, _, _ => none
  | fuel + 1, pageId, result =>
    if pageId = noPage then some result
    else
      let page := pages pageId
      if page.readUint 0 4 ≠ indexMagic ∨ page.get 4 ≠ pageTypeLeaf then some []
      else
        match findInLeaf key result false (leafEntries page) with
        | .error result => some result
        | .ok (result, false) => some result
        | .ok (result, true) => findFromPages pages key fuel (page.readUint 5 4) result

/-- `find`, with `fuel` for each of its loops. -/
def find (f : IndexFile) (key : Bytes) (fuel : Nat) : Option (List RecordId) := do
  let pageId ← f.findLeafPage key fuel f.rootPageId
  findFromPages f.pages key fuel pageId []

/-- The bounds of `find_range`. -/
structure KeyRange where
  lowerKey : Option Bytes
  includeLower : Bool
  upperKey : Option Bytes
  includeUpper : Bool
deriving DecidableEq, Repr

/-- `find_range` skips the key. -/
def KeyRange.skips (r : KeyRange) (key : Bytes) : Bool :=
  r.lowerKey.any fun lower => key < lower || (!r.includeLower && key = lower)

/-- `find_range` stops at the key. -/
def KeyRange.stops (r : KeyRange) (key : Bytes) : Bool :=
  r.upperKey.any fun upper => upper < key || (!r.includeUpper && key = upper)

/-- The loop of `find_range_from_pages` over the entries of a leaf. -/
def rangeInLeaf (r : KeyRange) (result : List RecordId) :
    List (Option IndexEntry) → Except (List RecordId) (List RecordId)
  | [] => .ok result
  | none :: _ => .error []
  | some entry :: rest =>
    if r.skips entry.key then rangeInLeaf r result rest
    else if r.stops entry.key then .error result
    else rangeInLeaf r (result ++ [entry.recordId]) rest

/-- The loop of `find_range_from_pages` over the leaves. -/
def rangeFromPages (pages : Nat → Page) (r : KeyRange) :
    Nat → Nat → List RecordId → Option (List RecordId)
  | 0, _, _ => none
  | fuel + 1, pageId, result =>
    if pageId = noPage then some result
    else
      let page := pages pageId
      if page.readUint 0 4 ≠ indexMagic ∨ page.get 4 ≠ pageTypeLeaf then some []
      else
        match rangeInLeaf r result (leafEntries page) with
        | .error result => some result
        | .ok result => rangeFromPages pages r fuel (page.readUint 5 4) result

/-- `find_range`. -/
def findRange (f : IndexFile) (r : KeyRange) (fuel : Nat) : Option (List RecordId) := do
  let pageId ← match r.lowerKey with
    | some lower => f.findLeafPage lower fuel f.rootPageId
    | none => some 1
  rangeFromPages f.pages r fuel pageId []

/-! ## Opening -/

/-- The loop of `load` over the pages, for `fuel` pages; `none` when it returns false. -/
def loadEntries (pages : Nat → Page) (pageCount : Nat) :
    Nat → Nat → List IndexEntry → Option (List IndexEntry)
  | 0, _, _ => none
  | fuel + 1, pageId, entries =>
    if pageId = noPage then some entries
    else if pageCount ≤ pageId then none
    else
      let page := pages pageId
      if page.readUint 0 4 ≠ indexMagic then none
      else if page.get 4 ≠ pageTypeLeaf then loadEntries pages pageCount fuel (pageId + 1) entries
      else do
        let leaf ← (leafEntries page).mapM id
        loadEntries pages pageCount fuel (page.readUint 5 4) (entries ++ leaf)

/-- The constructor: `load` on the pages of the file. -/
def load (fuel : Nat) (pages : Nat → Page) : Option IndexFile :=
  let header := pages 0
  if header.readUint 0 4 = 0 then writePages fuel ⟨[], 2, 1, 1, pages⟩
  else if header.readUint 0 4 ≠ indexMagic ∨ header.get 4 ≠ pageTypeHeader then none
  else if header.readUint 5 2 ≠ indexVersion then none
  else
    let rootPageId := header.readUint 7 4
    let pageCount := header.readUint 11 4
    let treeHeight := header.readUint 15 2
    if rootPageId = noPage ∨ pageCount < 2 ∨ treeHeight = 0 then none
    else do
      let entries ← loadEntries pages pageCount fuel 1 []
      some ⟨entries.mergeSort fun a b => !b.less a, pageCount, rootPageId, treeHeight, pages⟩

/-! ## Changes -/

/-- The lowest entry of a key: `Entry{key, RecordId{0, 0}}`. -/
def lowestEntry (key : Bytes) : IndexEntry := ⟨key, ⟨0, 0⟩, Nat.two_pow_pos 32, Nat.two_pow_pos 16⟩

/-- `insert`: its answer, and the file afterwards. -/
def insert (fuel : Nat) (f : IndexFile) (entry : IndexEntry) (unique : Bool) :
    Option (Bool × IndexFile) :=
  if !entryFitsEmptyLeaf entry then some (false, f)
  else if unique && (lowerBound f.entries (lowestEntry entry.key)).head?.any
      fun e => e.key = entry.key then some (false, f)
  else if (lowerBound f.entries entry).head? = some entry then some (true, f)
  else (writePages fuel { f with entries := insertEntry f.entries entry }).map fun f => (true, f)

def remove (fuel : Nat) (f : IndexFile) (entry : IndexEntry) : Option (Bool × IndexFile) :=
  if (lowerBound f.entries entry).head? ≠ some entry then some (true, f)
  else (writePages fuel { f with entries := eraseEntry f.entries entry }).map fun f => (true, f)

def reset (fuel : Nat) (f : IndexFile) : Option (Bool × IndexFile) :=
  (writePages fuel ⟨[], 2, 1, 1, f.pages⟩).map fun f => (true, f)

/-- The destructor writes the pages. -/
def close (fuel : Nat) (f : IndexFile) : Option (Bool × IndexFile) :=
  (writePages fuel f).map fun f => (true, f)

/-- The next constructor loads them. -/
def reopen (fuel : Nat) (f : IndexFile) : Option (Bool × IndexFile) :=
  (load fuel f.pages).map fun f => (true, f)

end IndexFile

/-- The operations on an index file. -/
inductive IndexOp where
  | insert (entry : IndexEntry) (unique : Bool)
  | remove (entry : IndexEntry)
  | reset
  | close
  | reopen
deriving DecidableEq

/-- The operation: its answer, and the file afterwards. `none` when `fuel` is too little, and when
a write fails or the file cannot be loaded. -/
def IndexFile.run (fuel : Nat) (f : IndexFile) : IndexOp → Option (Bool × IndexFile)
  | .insert entry unique => f.insert fuel entry unique
  | .remove entry => f.remove fuel entry
  | .reset => f.reset fuel
  | .close => f.close fuel
  | .reopen => f.reopen fuel

end ScratchDb
