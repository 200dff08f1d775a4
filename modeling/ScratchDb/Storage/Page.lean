import ScratchDb.Storage.WalRecord

/-!
# Slotted pages

The 4096 bytes of `Page` and its operations: a header, a slot directory that
grows from the front and records that grow from the back.
-/

namespace ScratchDb

open LittleEndian

/-! ## Sizes (`BYTE_SIZES`) -/

def pageSize : Nat := 4096
def pageHeaderSize : Nat := 12
def slotSize : Nat := 4
def maxSlots : Nat := (pageSize - pageHeaderSize) / slotSize

/-- A page as its bytes. -/
@[ext] structure Page where
  byte : Fin pageSize → UInt8

/-- `PageHeader`. -/
structure PageHeader where
  slotCount : Nat
  freeSpaceEnd : Nat
  pageLsn : Nat
deriving DecidableEq, Repr

/-- `Slot`. -/
structure Slot where
  size : Nat
  offset : Nat
deriving DecidableEq, Repr

/-- The cast to `uint16_t`. -/
def u16 (n : Nat) : Nat := n % 2 ^ 16

/-- `static_cast<uint16_t>(a - b)`. -/
def u16Sub (a b : Nat) : Nat := u16 (a + 2 ^ 16 - u16 b)

namespace Page

/-! ## Bytes -/

def get (p : Page) (i : Nat) : UInt8 := if h : i < pageSize then p.byte ⟨i, h⟩ else 0

/-- `memcpy(data + offset, bytes.data(), bytes.size())`. -/
def copy (p : Page) (offset : Nat) (bytes : Bytes) : Page :=
  ⟨fun i => if offset ≤ i.val ∧ i.val < offset + bytes.length then
    bytes.getD (i.val - offset) 0 else p.byte i⟩

/-- The `size` bytes from `offset` on. -/
def slice (p : Page) (offset size : Nat) : Bytes :=
  (List.range size).map fun i => p.get (offset + i)

/-- `page_image`. -/
def image (p : Page) : Bytes := List.ofFn p.byte

/-- All bytes zero, as behind the end of a file. -/
def zero : Page := ⟨fun _ => 0⟩

def readUint (p : Page) (offset size : Nat) : Nat := decode (p.slice offset size)

def writeUint (p : Page) (offset size v : Nat) : Page := p.copy offset (encode size v)

/-! ## Header and slots -/

def header (p : Page) : PageHeader :=
  ⟨p.readUint 0 2, p.readUint 2 2, p.readUint 4 8⟩

def writeHeader (p : Page) (h : PageHeader) : Page :=
  ((p.writeUint 0 2 h.slotCount).writeUint 2 2 h.freeSpaceEnd).writeUint 4 8 h.pageLsn

def slotOffset (slotId : Nat) : Nat := u16 (pageHeaderSize + slotId * slotSize)

def slot (p : Page) (slotId : Nat) : Slot :=
  ⟨p.readUint (slotOffset slotId) 2, p.readUint (slotOffset slotId + 2) 2⟩

def writeSlot (p : Page) (slotId : Nat) (s : Slot) : Page :=
  (p.writeUint (slotOffset slotId) 2 s.size).writeUint (slotOffset slotId + 2) 2 s.offset

def slotCount (p : Page) : Nat := p.header.slotCount

def pageLsn (p : Page) : Nat := p.header.pageLsn

def setPageLsn (p : Page) (pageLsn : Nat) : Page :=
  p.writeHeader { p.header with pageLsn := pageLsn }

/-- `Page::Page`, a blank page. -/
def blank : Page := zero.writeHeader ⟨0, pageSize, 0⟩

/-- `page_from_image`. -/
def ofImage (image : Bytes) : Page :=
  if image.length = pageSize then ⟨fun i => image.getD i.val 0⟩ else blank

def hasValidLayout (p : Page) : Bool :=
  let h := p.header
  let freeSpaceStart := pageHeaderSize + h.slotCount * slotSize
  h.slotCount ≤ maxSlots && freeSpaceStart ≤ h.freeSpaceEnd && h.freeSpaceEnd ≤ pageSize

def freeSpaceStart (p : Page) : Nat := u16 (pageHeaderSize + p.header.slotCount * slotSize)

def contiguousFreeSpace (p : Page) : Nat :=
  if !p.hasValidLayout then 0
  else if p.header.freeSpaceEnd < p.freeSpaceStart then 0
  else u16Sub p.header.freeSpaceEnd p.freeSpaceStart

/-! ## Operations -/

/-- `Page::read`: the record of a slot, `none` when the call returns false. -/
def read (p : Page) (slotId : Nat) : Option Bytes :=
  if !p.hasValidLayout || slotId ≥ p.header.slotCount then none
  else
    let s := p.slot slotId
    if s.size = 0 ∨ s.offset + s.size > pageSize then none
    else some (p.slice s.offset s.size)

/-- The first loop of `compact`: the live records from slot `i` on, the end
they would have when packed, and whether each already is where it would go. -/
def collectRecords (p : Page) : Nat → Nat → Nat → Bool → List (Nat × Bytes) × Nat × Bool
  | 0, _, expectedEnd, already => ([], expectedEnd, already)
  | count + 1, i, expectedEnd, already =>
    let s := p.slot i
    if s.size = 0 then p.collectRecords count (i + 1) expectedEnd already
    else
      let expectedEnd := u16Sub expectedEnd s.size
      let rest := p.collectRecords count (i + 1) expectedEnd
        (already && decide (s.offset = expectedEnd))
      ((i, p.slice s.offset s.size) :: rest.1, rest.2)

/-- The second loop of `compact`. -/
def rewriteRecords (p : Page) (endOffset : Nat) : List (Nat × Bytes) → Page × Nat
  | [] => (p, endOffset)
  | (slotId, record) :: rest =>
    let endOffset := u16Sub endOffset record.length
    ((p.copy endOffset record).writeSlot slotId ⟨u16 record.length, endOffset⟩).rewriteRecords
      endOffset rest

def compact (p : Page) : Page :=
  if !p.hasValidLayout then p
  else
    let h := p.header
    let (records, expectedEnd, already) := p.collectRecords h.slotCount 0 pageSize true
    if already && decide (h.freeSpaceEnd = expectedEnd) then p
    else
      let (q, endOffset) := p.rewriteRecords pageSize records
      q.writeHeader { h with freeSpaceEnd := endOffset }

/-- The first slot from `i` on whose size is zero, among `count` slots. -/
def firstFreeSlot (p : Page) : Nat → Nat → Option Nat
  | 0, _ => none
  | count + 1, i => if (p.slot i).size = 0 then some i else p.firstFreeSlot count (i + 1)

/-- Write `record` below the free space end and point `targetSlot` at it. -/
def placeRecord (p : Page) (targetSlot : Nat) (record : Bytes) (newSlot : Bool) : Page :=
  let h := p.header
  let newOffset := u16Sub h.freeSpaceEnd record.length
  ((p.copy newOffset record).writeSlot targetSlot ⟨u16 record.length, newOffset⟩).writeHeader
    { h with freeSpaceEnd := newOffset, slotCount := if newSlot then u16 (h.slotCount + 1) else h.slotCount }

/-- `Page::insert`: the slot used, `none` when the call returns false, and the
page, which a failed attempt may leave compacted. -/
def insert (p : Page) (record : Bytes) : Option Nat × Page :=
  if record.isEmpty || !p.hasValidLayout then (none, p)
  else
    let h := p.header
    let free := p.firstFreeSlot h.slotCount 0
    let targetSlot := free.getD h.slotCount
    let extraSlotBytes := if free.isSome then 0 else slotSize
    if free.isNone && h.slotCount == maxSlots then (none, p)
    else
      let neededBytes := record.length + extraSlotBytes
      if p.contiguousFreeSpace < neededBytes then
        let q := p.compact
        if q.contiguousFreeSpace < neededBytes then (none, q)
        else (some targetSlot, q.placeRecord targetSlot record free.isNone)
      else (some targetSlot, p.placeRecord targetSlot record free.isNone)

/-- `Page::remove`. -/
def remove (p : Page) (slotId : Nat) : Bool × Page :=
  if !p.hasValidLayout then (false, p)
  else if slotId ≥ p.header.slotCount || (p.slot slotId).size == 0 then (false, p)
  else (true, p.writeSlot slotId ⟨0, 0⟩)

/-- `Page::update`; the trial copy is dropped when the call returns false. -/
def update (p : Page) (slotId : Nat) (record : Bytes) : Bool × Page :=
  if record.isEmpty || !p.hasValidLayout || slotId ≥ p.header.slotCount then (false, p)
  else
    let oldSlot := p.slot slotId
    if oldSlot.size = 0 then (false, p)
    else if record.length = oldSlot.size then (true, p.copy oldSlot.offset record)
    else
      let trial := p.writeSlot slotId ⟨0, 0⟩
      if trial.contiguousFreeSpace < record.length then
        let trial := trial.compact
        if trial.contiguousFreeSpace < record.length then (false, p)
        else (true, trial.placeRecord slotId record false)
      else (true, trial.placeRecord slotId record false)

end Page

end ScratchDb
