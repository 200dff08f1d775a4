import ScratchDb.Lib.Accesses
import ScratchDb.Storage.FreeSpace

/-!
# The bytes that a page operation touches

The operations of `src/storage/page.cpp` again, with every access to the array of
the page noted. The values are those of the operations; the accesses of a page
that was read from a damaged file need not lie in the array.
-/

namespace ScratchDb

open Accesses Logged

namespace PageAccess

/-! ## Bytes -/

def readUint (p : Page) (offset size : Nat) : Logged Nat :=
  .touch offset size pageSize (p.readUint offset size)

def writeUint (p : Page) (offset size v : Nat) : Logged Page :=
  .touch offset size pageSize (p.writeUint offset size v)

def copy (p : Page) (offset : Nat) (bytes : Bytes) : Logged Page :=
  .touch offset bytes.length pageSize (p.copy offset bytes)

def slice (p : Page) (offset size : Nat) : Logged Bytes :=
  .touch offset size pageSize (p.slice offset size)

/-! ## Header and slots -/

def header (p : Page) : Logged PageHeader := do
  let slotCount ← readUint p 0 2
  let freeSpaceEnd ← readUint p 2 2
  let pageLsn ← readUint p 4 8
  pure ⟨slotCount, freeSpaceEnd, pageLsn⟩

def writeHeader (p : Page) (h : PageHeader) : Logged Page := do
  let p ← writeUint p 0 2 h.slotCount
  let p ← writeUint p 2 2 h.freeSpaceEnd
  writeUint p 4 8 h.pageLsn

def slot (p : Page) (slotId : Nat) : Logged Slot := do
  let size ← readUint p (Page.slotOffset slotId) 2
  let offset ← readUint p (Page.slotOffset slotId + 2) 2
  pure ⟨size, offset⟩

def writeSlot (p : Page) (slotId : Nat) (s : Slot) : Logged Page := do
  let p ← writeUint p (Page.slotOffset slotId) 2 s.size
  writeUint p (Page.slotOffset slotId + 2) 2 s.offset

def hasValidLayout (p : Page) : Logged Bool := do
  let h ← header p
  let freeSpaceStart := pageHeaderSize + h.slotCount * slotSize
  pure (h.slotCount ≤ maxSlots && freeSpaceStart ≤ h.freeSpaceEnd && h.freeSpaceEnd ≤ pageSize)

def freeSpaceStart (p : Page) : Logged Nat := do
  let h ← header p
  pure (u16 (pageHeaderSize + h.slotCount * slotSize))

def contiguousFreeSpace (p : Page) : Logged Nat := do
  let valid ← hasValidLayout p
  if !valid then pure 0
  else
    let h ← header p
    let start ← freeSpaceStart p
    if h.freeSpaceEnd < start then pure 0 else pure (u16Sub h.freeSpaceEnd start)

/-! ## Operations -/

def read (p : Page) (slotId : Nat) : Logged (Option Bytes) := do
  let valid ← hasValidLayout p
  if !valid then pure none
  else
    let h ← header p
    if slotId ≥ h.slotCount then pure none
    else
      let s ← slot p slotId
      if s.size = 0 ∨ s.offset + s.size > pageSize then pure none
      else
        let record ← slice p s.offset s.size
        pure (some record)

def collectRecords (p : Page) : Nat → Nat → Nat → Bool → Logged (List (Nat × Bytes) × Nat × Bool)
  | 0, _, expectedEnd, already => pure ([], expectedEnd, already)
  | count + 1, i, expectedEnd, already => do
    let s ← slot p i
    if s.size = 0 then collectRecords p count (i + 1) expectedEnd already
    else
      let expectedEnd := u16Sub expectedEnd s.size
      let record ← slice p s.offset s.size
      let rest ← collectRecords p count (i + 1) expectedEnd
        (already && decide (s.offset = expectedEnd))
      pure ((i, record) :: rest.1, rest.2)

def rewriteRecords (p : Page) (endOffset : Nat) : List (Nat × Bytes) → Logged (Page × Nat)
  | [] => pure (p, endOffset)
  | r :: rest => do
    let endOffset := u16Sub endOffset r.2.length
    let p ← copy p endOffset r.2
    let p ← writeSlot p r.1 ⟨u16 r.2.length, endOffset⟩
    rewriteRecords p endOffset rest

def compact (p : Page) : Logged Page := do
  let valid ← hasValidLayout p
  if !valid then pure p
  else
    let h ← header p
    let collected ← collectRecords p h.slotCount 0 pageSize true
    if collected.2.2 && decide (h.freeSpaceEnd = collected.2.1) then pure p
    else
      let rewritten ← rewriteRecords p pageSize collected.1
      writeHeader rewritten.1 { h with freeSpaceEnd := rewritten.2 }

def firstFreeSlot (p : Page) : Nat → Nat → Logged (Option Nat)
  | 0, _ => pure none
  | count + 1, i => do
    let s ← slot p i
    if s.size = 0 then pure (some i) else firstFreeSlot p count (i + 1)

def placeRecord (p : Page) (targetSlot : Nat) (record : Bytes) (newSlot : Bool) : Logged Page := do
  let h ← header p
  let newOffset := u16Sub h.freeSpaceEnd record.length
  let p ← copy p newOffset record
  let p ← writeSlot p targetSlot ⟨u16 record.length, newOffset⟩
  writeHeader p
    { h with freeSpaceEnd := newOffset, slotCount := if newSlot then u16 (h.slotCount + 1) else h.slotCount }

/-- The end of `insert` and of `update`: the record goes where there is room, in the page as it is
or packed. -/
def storeRecord (p : Page) (targetSlot : Nat) (record : Bytes) (newSlot : Bool) (neededBytes : Nat) :
    Logged (Bool × Page) := do
  let free ← contiguousFreeSpace p
  if free < neededBytes then
    let q ← compact p
    let free ← contiguousFreeSpace q
    if free < neededBytes then pure (false, q)
    else
      let q ← placeRecord q targetSlot record newSlot
      pure (true, q)
  else
    let q ← placeRecord p targetSlot record newSlot
    pure (true, q)

def insert (p : Page) (record : Bytes) : Logged (Option Nat × Page) := do
  if record.isEmpty then pure (none, p)
  else
    let valid ← hasValidLayout p
    if !valid then pure (none, p)
    else
      let h ← header p
      let free ← firstFreeSlot p h.slotCount 0
      let targetSlot := free.getD h.slotCount
      let extraSlotBytes := if free.isSome then 0 else slotSize
      if free.isNone && h.slotCount == maxSlots then pure (none, p)
      else
        let stored ← storeRecord p targetSlot record free.isNone (record.length + extraSlotBytes)
        pure (if stored.1 then some targetSlot else none, stored.2)

def remove (p : Page) (slotId : Nat) : Logged (Bool × Page) := do
  let valid ← hasValidLayout p
  if !valid then pure (false, p)
  else
    let h ← header p
    if slotId ≥ h.slotCount then pure (false, p)
    else
      let s ← slot p slotId
      if s.size = 0 then pure (false, p)
      else
        let q ← writeSlot p slotId ⟨0, 0⟩
        pure (true, q)

def update (p : Page) (slotId : Nat) (record : Bytes) : Logged (Bool × Page) := do
  if record.isEmpty then pure (false, p)
  else
    let valid ← hasValidLayout p
    if !valid then pure (false, p)
    else
      let h ← header p
      if slotId ≥ h.slotCount then pure (false, p)
      else
        let oldSlot ← slot p slotId
        if oldSlot.size = 0 then pure (false, p)
        else if record.length = oldSlot.size then
          let q ← copy p oldSlot.offset record
          pure (true, q)
        else
          let trial ← writeSlot p slotId ⟨0, 0⟩
          let stored ← storeRecord trial slotId record false record.length
          pure (stored.1, if stored.1 then stored.2 else p)

/-! ## The values are those of the operations -/

@[simp] theorem value_readUint (p : Page) (offset size : Nat) :
    (readUint p offset size).value = p.readUint offset size := (rfl)

@[simp] theorem value_writeUint (p : Page) (offset size v : Nat) :
    (writeUint p offset size v).value = p.writeUint offset size v := (rfl)

@[simp] theorem value_copy (p : Page) (offset : Nat) (bytes : Bytes) :
    (copy p offset bytes).value = p.copy offset bytes := (rfl)

@[simp] theorem value_slice (p : Page) (offset size : Nat) :
    (slice p offset size).value = p.slice offset size := (rfl)

@[simp] theorem value_header (p : Page) : (header p).value = p.header := (rfl)

@[simp] theorem value_writeHeader (p : Page) (h : PageHeader) :
    (writeHeader p h).value = p.writeHeader h := (rfl)

@[simp] theorem value_slot (p : Page) (i : Nat) : (slot p i).value = p.slot i := (rfl)

@[simp] theorem value_writeSlot (p : Page) (i : Nat) (s : Slot) :
    (writeSlot p i s).value = p.writeSlot i s := (rfl)

@[simp] theorem value_hasValidLayout (p : Page) : (hasValidLayout p).value = p.hasValidLayout := (rfl)

@[simp] theorem value_freeSpaceStart (p : Page) : (freeSpaceStart p).value = p.freeSpaceStart := (rfl)

@[simp] theorem value_contiguousFreeSpace (p : Page) :
    (contiguousFreeSpace p).value = p.contiguousFreeSpace := by
  simp [contiguousFreeSpace, Page.contiguousFreeSpace]

theorem value_read (p : Page) (i : Nat) : (read p i).value = p.read i := by
  rw [Page.read]
  cases hvalid : p.hasValidLayout with
  | false => simp [read, hvalid]
  | true => simp [read, hvalid]

@[simp] theorem value_collectRecords (p : Page) (count i expectedEnd : Nat) (already : Bool) :
    (collectRecords p count i expectedEnd already).value =
      p.collectRecords count i expectedEnd already := by
  induction count generalizing i expectedEnd already with
  | zero => rfl
  | succ count ih => simp [collectRecords, Page.collectRecords, ih]

@[simp] theorem value_rewriteRecords (p : Page) (endOffset : Nat) (rs : List (Nat × Bytes)) :
    (rewriteRecords p endOffset rs).value = p.rewriteRecords endOffset rs := by
  induction rs generalizing p endOffset with
  | nil => rfl
  | cons r rs ih => simp [rewriteRecords, Page.rewriteRecords, ih]

@[simp] theorem value_compact (p : Page) : (compact p).value = p.compact := by
  simp [compact, Page.compact]

@[simp] theorem value_firstFreeSlot (p : Page) (count i : Nat) :
    (firstFreeSlot p count i).value = p.firstFreeSlot count i := by
  induction count generalizing i with
  | zero => rfl
  | succ count ih => simp [firstFreeSlot, Page.firstFreeSlot, ih]

@[simp] theorem value_placeRecord (p : Page) (i : Nat) (r : Bytes) (newSlot : Bool) :
    (placeRecord p i r newSlot).value = p.placeRecord i r newSlot := (rfl)

theorem value_storeRecord (p : Page) (i : Nat) (r : Bytes) (newSlot : Bool) (needed : Nat) :
    (storeRecord p i r newSlot needed).value =
      if p.contiguousFreeSpace < needed then
        if p.compact.contiguousFreeSpace < needed then (false, p.compact)
        else (true, p.compact.placeRecord i r newSlot)
      else (true, p.placeRecord i r newSlot) := by
  simp [storeRecord]

theorem value_insert (p : Page) (r : Bytes) : (insert p r).value = p.insert r := by
  rw [Page.insert]
  cases hempty : r.isEmpty with
  | true => simp [insert, hempty]
  | false =>
    cases hvalid : p.hasValidLayout with
    | false => simp [insert, hempty, hvalid]
    | true =>
      simp only [insert, hempty, hvalid, Bool.false_eq_true, if_false, value_bind,
        value_hasValidLayout, Bool.not_true, value_header, value_firstFreeSlot, value_ite,
        value_pure, value_storeRecord, Bool.or_self]
      split
      · rfl
      · generalize r.length + (if (p.firstFreeSlot p.header.slotCount 0).isSome = true then 0
          else slotSize) = needed
        by_cases hfree : p.contiguousFreeSpace < needed
        · by_cases hpacked : p.compact.contiguousFreeSpace < needed
          · simp [hfree, hpacked]
          · simp [hfree, hpacked]
        · simp [hfree]

theorem value_remove (p : Page) (i : Nat) : (remove p i).value = p.remove i := by
  rw [Page.remove]
  cases hvalid : p.hasValidLayout with
  | false => simp [remove, hvalid]
  | true =>
    by_cases hcount : p.header.slotCount ≤ i
    · simp [remove, hvalid, hcount]
    · simp [remove, hvalid, hcount]

theorem value_update (p : Page) (i : Nat) (r : Bytes) : (update p i r).value = p.update i r := by
  rw [Page.update]
  cases hempty : r.isEmpty with
  | true => simp [update, hempty]
  | false =>
    cases hvalid : p.hasValidLayout with
    | false => simp [update, hempty, hvalid]
    | true =>
      by_cases hcount : i ≥ p.header.slotCount
      · simp [update, hempty, hvalid, hcount]
      · simp only [update, hempty, hvalid, hcount, Bool.false_eq_true, if_false, value_bind,
          value_hasValidLayout, Bool.not_true, value_header, value_ite, value_pure, value_slot,
          value_copy, value_writeSlot, value_storeRecord, Bool.or_self, decide_false]
        split
        · rfl
        · split
          · rfl
          · split
            · split
              · rfl
              · rfl
            · rfl

end PageAccess

end ScratchDb
