import ScratchDb.Lib.SlottedStore
import ScratchDb.Storage.FreeSpace

/-!
# Pages as lists of slots

What the operations of a page answer and do depends on the records in its slots
alone, not on where their bytes lie.
-/

namespace ScratchDb

open SlottedStore

namespace Page

def slots (p : Page) : Slots Bytes := (List.range p.slotCount).map p.read

/-- The bytes of the records together. -/
def recordBytes (slots : Slots Bytes) : Nat := (slots.map fun r => (r.getD []).length).sum

/-- The slots there are when a record has been added. -/
def slotsNeeded (slots : Slots Bytes) : Nat :=
  if none ∈ slots then slots.length else slots.length + 1

/-- The room of a page. -/
def capacity : Capacity Bytes where
  takes slots r := decide (r ≠ [] ∧ slotsNeeded slots ≤ maxSlots ∧
    directoryEnd (slotsNeeded slots) + recordBytes slots + r.length ≤ pageSize)
  fits slots i r := decide (r ≠ [] ∧
    directoryEnd slots.length + recordBytes (slots.set i none) + r.length ≤ pageSize)

/-- The page is laid out well and has the slots. -/
structure Stores (p : Page) (slots : Slots Bytes) : Prop where
  placed : p.Placed
  slots : p.slots = slots

variable {p q : Page} {slots : Slots Bytes} {i : Nat} {r : Bytes}

/-! ## Slots and records -/

@[simp] theorem length_slots (p : Page) : p.slots.length = p.slotCount := by
  rw [Page.slots, List.length_map, List.length_range]

theorem join_slots (p : Page) (i : Nat) : p.slots[i]?.join = p.read i := by
  by_cases hi : i < p.slotCount
  · rw [Page.slots, List.getElem?_map, List.getElem?_range hi]
    rfl
  · rw [List.getElem?_eq_none (by rw [length_slots]; exact Nat.not_lt.mp hi)]
    exact (read_of_not_live fun hlive => hi hlive.1).symm

theorem Stores.read (h : p.Stores slots) (i : Nat) : p.read i = slots[i]?.join := by
  rw [← h.slots, join_slots]

theorem Placed.stores (h : p.Placed) : p.Stores p.slots := ⟨h, rfl⟩

/-- The slots are told by their number and the records in them. -/
theorem Placed.stores_of_reads (hq : q.Placed) (hcount : q.slotCount = slots.length)
    (hreads : ∀ j, q.read j = slots[j]?.join) : q.Stores slots :=
  ⟨hq, ext_join (by rw [length_slots, hcount]) fun j => by rw [join_slots, hreads]⟩

theorem stores_blank : blank.Stores [] := by
  obtain ⟨hplaced, hcount, -⟩ := placed_blank
  refine ⟨hplaced, ?_⟩
  rw [Page.slots, hcount]
  rfl

theorem LowestFree.freeSlot_eq (h : p.LowestFree i) : freeSlot p.slots = i := by
  refine SlottedStore.freeSlot_eq ?_ ?_ fun j hj => ?_
  · rw [length_slots]
    by_contra hlt
    exact h.2 _ (Nat.not_le.mp hlt) (read_of_not_live fun hlive => Nat.lt_irrefl _ hlive.1)
  · rw [join_slots]
    exact h.1
  · rw [join_slots]
    exact h.2 j hj

theorem Placed.hasFreeSlot_iff_mem (h : p.Placed) : p.HasFreeSlot ↔ none ∈ p.slots := by
  rw [HasFreeSlot, Page.slots, List.mem_map]
  refine exists_congr fun i => ?_
  rw [List.mem_range, h.read_eq_none_iff]

theorem Placed.slotsWithOne_eq (h : p.Placed) : p.slotsWithOne = slotsNeeded p.slots := by
  rw [slotsWithOne, slotsNeeded, length_slots]
  by_cases hfree : p.HasFreeSlot
  · rw [if_pos hfree, if_pos (h.hasFreeSlot_iff_mem.mp hfree)]
  · rw [if_neg hfree, if_neg fun hmem => hfree (h.hasFreeSlot_iff_mem.mpr hmem)]

theorem Placed.length_read (h : p.Placed) (hi : i < p.slotCount) :
    ((p.read i).getD []).length = (p.slot i).size := by
  by_cases hlive : p.Live i
  · rw [h.read_of_live hlive, Option.getD_some, length_slice]
  · rw [read_of_not_live hlive, Option.getD_none]
    by_contra hsize
    exact hlive ⟨hi, Ne.symm hsize⟩

theorem Placed.liveBytes_eq_recordBytes (h : p.Placed) : p.liveBytes = recordBytes p.slots := by
  have hsum : p.liveBytes = ((List.range p.slotCount).map fun i => (p.slot i).size).sum := rfl
  rw [hsum, recordBytes, Page.slots, List.map_map]
  refine congrArg List.sum (List.map_congr_left fun i hi => ?_)
  exact (h.length_read (List.mem_range.mp hi)).symm

/-! ## Removing and replacing -/

/-- A page that differs from another in one of its slots. -/
theorem Changed.stores {r : Option Bytes} (h : p.Changed q i r) (hcount : q.slotCount = p.slotCount)
    (hi : i < p.slotCount) : q.Stores (p.slots.set i r) := by
  refine h.placed.stores_of_reads (by rw [List.length_set, length_slots, hcount]) fun j => ?_
  rw [h.reads j, join_set _ _ _ _ (by rw [length_slots]; exact hi), join_slots]

theorem Kept.stores (h : p.Kept q) (hcount : q.slotCount = p.slotCount) : q.Stores p.slots :=
  h.placed.stores_of_reads (by rw [length_slots, hcount]) fun j => by rw [h.reads j, join_slots]

theorem Placed.otherBytes_eq (h : p.Placed) (hi : i < p.slotCount) :
    p.otherBytes i = recordBytes (p.slots.set i none) := by
  have hslots := h.slots
  have hchanged := h.changed_writeSlot hi
  have hstores := hchanged.stores (slotCount_writeSlot p _ (by omega)) hi
  rw [← hstores.slots, ← hchanged.placed.liveBytes_eq_recordBytes,
    liveBytes_writeSlot_zero hi hslots]

theorem slotCount_remove (h : p.Placed) (i : Nat) : (p.remove i).2.slotCount = p.slotCount := by
  have hslots := h.slots
  rw [remove, h.hasValidLayout, Bool.not_true, if_neg Bool.false_ne_true]
  split
  · rfl
  · rename_i hlive
    simp only [Bool.or_eq_true, decide_eq_true_eq, not_or, Nat.not_le] at hlive
    have hi : i < p.slotCount := hlive.1
    exact slotCount_writeSlot p _ (by omega)

theorem slotCount_writeHeader (p : Page) {h : PageHeader} (hfits : HeaderFits h) :
    (p.writeHeader h).slotCount = h.slotCount := by
  rw [slotCount, header_writeHeader p hfits]

theorem slotCount_placeRecord (p : Page) (i : Nat) (r : Bytes) (newSlot : Bool) :
    (p.placeRecord i r newSlot).slotCount =
      if newSlot then u16 (p.slotCount + 1) else p.slotCount := by
  have hcount : (if newSlot then u16 (p.slotCount + 1) else p.slotCount) < 2 ^ 16 := by
    split
    · exact Nat.mod_lt _ (Nat.two_pow_pos 16)
    · exact p.header_fits.slotCount
  have hend : u16Sub p.header.freeSpaceEnd r.length < 2 ^ 16 := Nat.mod_lt _ (Nat.two_pow_pos 16)
  rw [placeRecord]
  exact slotCount_writeHeader _ ⟨hcount, hend, p.header_fits.pageLsn⟩

/-- The slots that `insert` leaves. -/
theorem Placed.slotCount_insert (h : p.Placed) (r : Bytes) :
    (p.insert r).2.slotCount =
      ((p.insert r).1.map fun i => max p.slotCount (i + 1)).getD p.slotCount := by
  have hslots := h.slots
  have hmax := maxSlots_eq
  have hcompact := h.compact.2.1
  have hcount : p.header.slotCount = p.slotCount := rfl
  have hnext : u16 (p.slotCount + 1) = max p.slotCount (p.slotCount + 1) := by
    rw [Nat.max_eq_right (Nat.le_succ _)]
    exact Nat.mod_eq_of_lt (by omega)
  rw [Page.insert]
  split
  · rfl
  · dsimp only
    rw [hcount]
    cases hfree : p.firstFreeSlot p.slotCount 0 with
    | none =>
      simp only [Option.isNone_none, Option.isSome_none, Bool.true_and, Option.getD_none,
        Bool.false_eq_true, if_false, beq_iff_eq]
      split
      · rfl
      · split
        · split
          · exact hcompact
          · rw [slotCount_placeRecord, if_pos rfl, hcompact]
            exact hnext
        · rw [slotCount_placeRecord, if_pos rfl]
          exact hnext
    | some s =>
      have hs := (firstFreeSlot_eq_some hfree).2.1
      have hsame : p.slotCount = max p.slotCount (s + 1) := by omega
      simp only [Option.isNone_some, Option.isSome_some, Bool.false_and, Option.getD_some,
        Bool.false_eq_true, if_false, if_true]
      split
      · split
        · exact hcompact
        · rw [slotCount_placeRecord, if_neg Bool.false_ne_true, hcompact]
          exact hsame
      · rw [slotCount_placeRecord, if_neg Bool.false_ne_true]
        exact hsame

theorem Placed.slotCount_update (h : p.Placed) (i : Nat) (r : Bytes) :
    (p.update i r).2.slotCount = p.slotCount := by
  have hslots := h.slots
  rw [Page.update]
  split
  · rfl
  · rename_i hguard
    simp only [Bool.or_eq_true, decide_eq_true_eq, not_or, Nat.not_le] at hguard
    have hi : i < p.slotCount := hguard.2
    have htrial : (p.writeSlot i ⟨0, 0⟩).slotCount = p.slotCount :=
      slotCount_writeSlot p _ (by omega)
    have hpacked : (p.writeSlot i ⟨0, 0⟩).compact.slotCount = p.slotCount :=
      (h.changed_writeSlot hi).placed.compact.2.1.trans htrial
    dsimp only
    split
    · rfl
    · rename_i hlive
      split
      · have hbounds := h.inside i ⟨hi, hlive⟩
        have hdirectory := h.directory
        have hend := directoryEnd_eq p.slotCount
        rw [slotCount, header_copy p r (by omega)]
        rfl
      · split
        · split
          · rfl
          · rw [slotCount_placeRecord, if_neg Bool.false_ne_true, hpacked]
        · rw [slotCount_placeRecord, if_neg Bool.false_ne_true, htrial]

/-! ## The operations -/

/-- `insert` takes the lowest free slot of a page with room. -/
theorem Stores.insert (h : p.Stores slots) (r : Bytes) :
    if capacity.takes slots r then
      (p.insert r).1 = some (freeSlot slots) ∧
        (p.insert r).2.Stores (fill slots (freeSlot slots) r)
    else (p.insert r).1 = none ∧ (p.insert r).2.Stores slots := by
  obtain ⟨hplaced, rfl⟩ := h
  have hmax := hplaced.slots
  have hinserted := hplaced.insert r
  have hcount := hplaced.slotCount_insert r
  have htakes : capacity.takes p.slots r = true ↔ (p.insert r).1.isSome = true := by
    rw [hplaced.insert_isSome_iff, hplaced.slotsWithOne_eq, hplaced.liveBytes_eq_recordBytes]
    refine decide_eq_true_iff.trans (and_congr_right fun _ => and_congr_left fun _ => ?_)
    rw [slotsNeeded, hplaced.hasFreeSlot_iff_mem, length_slots]
    split
    · rename_i hmem
      exact iff_of_true hmax (.inl hmem)
    · rename_i hmem
      exact ⟨.inr, fun hor => hor.resolve_left hmem⟩
  cases hresult : (p.insert r).1 with
  | none =>
    rw [hresult] at htakes hcount
    rw [if_neg (by simpa using htakes)]
    exact ⟨rfl, (hinserted.failed hresult).stores hcount⟩
  | some i =>
    rw [hresult] at htakes hcount
    obtain ⟨hlowest, hchanged⟩ := hinserted.stored i hresult
    have hi := hlowest.freeSlot_eq
    have hle : i ≤ p.slots.length := hi ▸ freeSlot_le p.slots
    rw [if_pos (htakes.mpr rfl), hi]
    refine ⟨rfl, hchanged.placed.stores_of_reads ?_ fun j => ?_⟩
    · rw [length_fill hle, length_slots]
      exact hcount
    · rw [hchanged.reads j, join_fill hle, join_slots]

theorem Placed.remove_iff (h : p.Placed) (i : Nat) : (p.remove i).1 = true ↔ p.Live i := by
  rw [Page.remove, h.hasValidLayout, Bool.not_true, if_neg Bool.false_ne_true]
  by_cases hlive : p.Live i
  · have hcount : ¬ p.header.slotCount ≤ i := Nat.not_le.mpr hlive.1
    rw [if_neg (by simp [hcount, hlive.2])]
    exact iff_of_true rfl hlive
  · rw [if_pos]
    · exact iff_of_false Bool.false_ne_true hlive
    · rw [Live, slotCount] at hlive
      simp only [Bool.or_eq_true, decide_eq_true_eq, beq_iff_eq]
      omega

theorem Placed.live_iff (h : p.Placed) : p.Live i ↔ p.slots[i]?.join ≠ none := by
  rw [join_slots, ne_eq, h.read_eq_none_iff, not_not]

theorem Stores.remove (h : p.Stores slots) (i : Nat) :
    if slots[i]?.join ≠ none then
      (p.remove i).1 = true ∧ (p.remove i).2.Stores (slots.set i none)
    else (p.remove i).1 = false := by
  obtain ⟨hplaced, rfl⟩ := h
  have hiff := hplaced.remove_iff i
  split
  · rename_i hread
    have hlive := hplaced.live_iff.mpr hread
    have hdone := hiff.mpr hlive
    exact ⟨hdone, ((hplaced.remove i).done hdone).2.stores (slotCount_remove hplaced i) hlive.1⟩
  · rename_i hread
    rw [← hplaced.live_iff, ← hiff] at hread
    exact Bool.eq_false_iff.mpr hread

/-- `update` of a record that is there. -/
theorem Stores.update (h : p.Stores slots) (hread : slots[i]?.join ≠ none) (r : Bytes) :
    if capacity.fits slots i r then
      (p.update i r).1 = true ∧ (p.update i r).2.Stores (slots.set i (some r))
    else (p.update i r).1 = false := by
  obtain ⟨hplaced, rfl⟩ := h
  have hlive := hplaced.live_iff.mpr hread
  have hfits : capacity.fits p.slots i r = true ↔ (p.update i r).1 = true := by
    rw [hplaced.update_iff, hplaced.otherBytes_eq hlive.1, ← length_slots p]
    exact decide_eq_true_iff.trans (and_iff_right hlive).symm
  split
  · rename_i hroom
    have hdone := hfits.mp hroom
    exact ⟨hdone, ((hplaced.update i r).done hdone).2.stores (hplaced.slotCount_update i r) hlive.1⟩
  · rename_i hroom
    rw [hfits] at hroom
    exact Bool.eq_false_iff.mpr hroom

theorem Stores.setPageLsn (h : p.Stores slots) (lsn : Nat) : (p.setPageLsn lsn).Stores slots := by
  obtain ⟨hplaced, rfl⟩ := h
  have hmod : p.setPageLsn (lsn % 2 ^ 64) = p.setPageLsn lsn := by
    have hbytes := LittleEndian.encode_mod 8 lsn
    rw [Page.setPageLsn, Page.setPageLsn, writeHeader, writeHeader, writeUint, writeUint]
    exact congrArg _ hbytes
  have hlsn : lsn % 2 ^ 64 < 2 ^ 64 := Nat.mod_lt _ (Nat.two_pow_pos 64)
  obtain ⟨hplaced', hreads⟩ := hplaced.setPageLsn hlsn
  rw [hmod] at hplaced' hreads
  have hcount : (p.setPageLsn lsn).slotCount = p.slotCount := by
    rw [← hmod, slotCount, header_setPageLsn p hlsn, slotCount]
  exact hplaced'.stores_of_reads (by rw [length_slots, hcount]) fun j => by rw [hreads, join_slots]

end Page

end ScratchDb
