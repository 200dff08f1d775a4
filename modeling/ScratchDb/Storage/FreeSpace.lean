import Mathlib.Algebra.BigOperators.Group.Finset.Basic
import Mathlib.Algebra.BigOperators.Intervals
import ScratchDb.Storage.SlotMap

/-!
# The free space of a page

Packing leaves one hole between the directory and the records, as large as all
holes were together. `insert` and `update` pack where the hole they see is too
small, so they fail only where the bytes of the page do not suffice.
-/

namespace ScratchDb

namespace Page

instance (p : Page) (i : Nat) : Decidable (p.Live i) := inferInstanceAs (Decidable (_ ∧ _))

/-- The sizes of the live records together; a free slot has size zero. -/
def liveBytes (p : Page) : Nat := ∑ i ∈ Finset.range p.slotCount, (p.slot i).size

/-- The sizes of the live records but one. -/
def otherBytes (p : Page) (i : Nat) : Nat := ∑ j ∈ (Finset.range p.slotCount).erase i, (p.slot j).size

/-- Some slot is free. -/
def HasFreeSlot (p : Page) : Prop := ∃ i < p.slotCount, ¬ p.Live i

instance (p : Page) : Decidable p.HasFreeSlot := inferInstanceAs (Decidable (∃ i < _, _))

/-- The slots of the page when a record has been added. -/
def slotsWithOne (p : Page) : Nat := if p.HasFreeSlot then p.slotCount else p.slotCount + 1

/-! ## What packing recovers -/

theorem sum_map_liveRecords (p : Page) (count i : Nat) :
    ((p.liveRecords count i).map fun r => r.2.length).sum =
      ∑ j ∈ Finset.range count, (p.slot (i + j)).size := by
  induction count generalizing i with
  | zero => rfl
  | succ count ih =>
    have hrest : ∑ j ∈ Finset.range count, (p.slot (i + 1 + j)).size =
        ∑ j ∈ Finset.range count, (p.slot (i + (j + 1))).size :=
      Finset.sum_congr rfl fun j _ => by rw [Nat.add_assoc, Nat.add_comm 1 j]
    rw [liveRecords, Finset.sum_range_succ', Nat.add_zero i, ← hrest, ← ih]
    split
    · rename_i hdead
      rw [hdead]
      rfl
    · rw [List.map_cons, List.sum_cons, length_slice, Nat.add_comm]

theorem sum_liveRecords_eq (p : Page) :
    ((p.liveRecords p.slotCount 0).map fun r => r.2.length).sum = p.liveBytes := by
  rw [sum_map_liveRecords, liveBytes]
  exact Finset.sum_congr rfl fun j _ => by rw [Nat.zero_add]

/-- The records end where the free space begins, or leave holes. -/
theorem Placed.liveBytes_le {p : Page} (h : p.Placed) :
    p.liveBytes + p.header.freeSpaceEnd ≤ pageSize := by
  have hsum := h.sum_liveRecords
  have hend := h.freeSpaceEnd
  rw [sum_liveRecords_eq] at hsum
  omega

theorem collectRecords_end (p : Page) {count i expectedEnd : Nat} (already : Bool)
    (hsum : ((p.liveRecords count i).map fun r => r.2.length).sum ≤ expectedEnd)
    (hend : expectedEnd < 2 ^ 16) :
    (p.collectRecords count i expectedEnd already).2.1 =
      expectedEnd - ((p.liveRecords count i).map fun r => r.2.length).sum := by
  induction count generalizing i expectedEnd already with
  | zero => rfl
  | succ count ih =>
    rw [liveRecords] at hsum ⊢
    rw [collectRecords]
    dsimp only
    split
    · rename_i hdead
      rw [if_pos hdead] at hsum
      exact ih already hsum hend
    · rename_i hlive
      rw [if_neg hlive, List.map_cons, List.sum_cons, length_slice] at hsum
      rw [List.map_cons, List.sum_cons, length_slice]
      have hsub : u16Sub expectedEnd (p.slot i).size = expectedEnd - (p.slot i).size :=
        u16Sub_eq (by omega) hend
      rw [hsub, ih _ (by omega) (by omega)]
      omega

theorem Placed.freeSpaceEnd_rewritten {p : Page} (h : p.Placed) :
    p.rewritten.header.freeSpaceEnd = pageSize - p.liveBytes := by
  have hsum := h.liveBytes_le
  have hdir := h.directory
  have hsize : pageSize = 4096 := rfl
  have hrewrite := @rewriteRecords_spec p p.slotCount pageSize (p.liveRecords p.slotCount 0)
    h.slots (Nat.le_refl _) (by rw [sum_liveRecords_eq]; omega)
    (fun r hr => by have := (mem_liveRecords.mp hr).2.1; omega) (p.pairwise_liveRecords _ _)
  have hends := hrewrite.ends
  rw [sum_liveRecords_eq] at hends
  have hheader : p.rewritten.header = ⟨p.slotCount,
      (p.rewriteRecords pageSize (p.liveRecords p.slotCount 0)).2, p.header.pageLsn⟩ :=
    header_writeHeader _ ⟨p.header_fits.slotCount, by dsimp only; omega, p.header_fits.pageLsn⟩
  rw [hheader]
  dsimp only
  omega

theorem Placed.freeSpaceEnd_compact {p : Page} (h : p.Placed) :
    p.compact.header.freeSpaceEnd = pageSize - p.liveBytes := by
  have hsum := h.liveBytes_le
  have hsize : pageSize = 4096 := rfl
  have hlive : ((p.liveRecords p.slotCount 0).map fun r => r.2.length).sum ≤ pageSize := by
    rw [sum_liveRecords_eq]
    omega
  have hcollected := p.collectRecords_end true hlive (by omega)
  rw [sum_liveRecords_eq] at hcollected
  rw [Page.compact, h.hasValidLayout, Bool.not_true, if_neg Bool.false_ne_true]
  dsimp only
  split
  · rename_i halready
    have hsame := (Bool.and_eq_true _ _).mp halready |>.2
    exact (of_decide_eq_true hsame).trans hcollected
  · rw [collectRecords_eq]
    exact h.freeSpaceEnd_rewritten

/-- Packing recovers every byte of every hole. -/
theorem Placed.contiguousFreeSpace_compact {p : Page} (h : p.Placed) :
    p.compact.contiguousFreeSpace = pageSize - p.liveBytes - directoryEnd p.slotCount := by
  rw [h.compact.1.contiguousFreeSpace, h.freeSpaceEnd_compact, h.compact.2.1]

/-- A record has room in the page as it is, or packed, exactly if the bytes suffice. -/
theorem Placed.packed_lt_iff {p : Page} (h : p.Placed) {needed : Nat} (hneeded : 0 < needed) :
    p.contiguousFreeSpace < needed ∧ p.compact.contiguousFreeSpace < needed ↔
      pageSize < directoryEnd p.slotCount + p.liveBytes + needed := by
  have hsum := h.liveBytes_le
  have hdir := h.directory
  have hend := h.freeSpaceEnd
  rw [h.contiguousFreeSpace, h.contiguousFreeSpace_compact]
  omega

/-! ## When a record is stored -/

theorem Placed.hasFreeSlot_iff {p : Page} :
    p.HasFreeSlot ↔ p.firstFreeSlot p.slotCount 0 ≠ none := by
  constructor
  · rintro ⟨i, hi, hdead⟩ hnone
    exact hdead ⟨hi, firstFreeSlot_eq_none hnone i (Nat.zero_le i) (by omega)⟩
  · intro hne
    obtain ⟨s, hs⟩ := Option.ne_none_iff_exists'.mp hne
    obtain ⟨-, hlt, hdead, -⟩ := firstFreeSlot_eq_some hs
    exact ⟨s, by omega, fun hlive => hlive.2 hdead⟩

/-- The end of `insert`. -/
theorem isSome_place_iff (p : Page) (i : Nat) (r : Bytes) (newSlot : Bool) (needed : Nat) :
    (if p.contiguousFreeSpace < needed then
        if p.compact.contiguousFreeSpace < needed then (none, p.compact)
        else (some i, p.compact.placeRecord i r newSlot)
      else (some i, p.placeRecord i r newSlot) : Option Nat × Page).1.isSome = true ↔
      ¬ (p.contiguousFreeSpace < needed ∧ p.compact.contiguousFreeSpace < needed) := by
  split
  · split
    · simp [*]
    · simp [*]
  · simp [*]

theorem Placed.insert_isSome_iff {p : Page} (h : p.Placed) (r : Bytes) :
    (p.insert r).1.isSome = true ↔ r ≠ [] ∧ (p.HasFreeSlot ∨ p.slotCount < maxSlots) ∧
      directoryEnd p.slotsWithOne + p.liveBytes + r.length ≤ pageSize := by
  have hslots := h.slots
  have hcount : p.header.slotCount = p.slotCount := rfl
  have hdirectory := directoryEnd_eq p.slotCount
  have hdirectory' := directoryEnd_eq (p.slotCount + 1)
  have hslot : slotSize = 4 := rfl
  rw [Page.insert]
  by_cases hne : r = []
  · rw [hne, List.isEmpty_nil, Bool.true_or, if_pos rfl]
    simp
  · have hempty : r.isEmpty = false := by simpa using hne
    have hlen := List.length_pos_iff.mpr hne
    rw [hempty, h.hasValidLayout, Bool.not_true, Bool.or_false, if_neg Bool.false_ne_true]
    dsimp only
    rw [hcount]
    cases hfree : p.firstFreeSlot p.slotCount 0 with
    | none =>
      have hnone : ¬ p.HasFreeSlot := fun hhas => Placed.hasFreeSlot_iff.mp hhas hfree
      rw [slotsWithOne, if_neg hnone]
      simp only [Option.isNone_none, Option.isSome_none, Bool.true_and, Option.getD_none,
        Bool.false_eq_true, if_false, beq_iff_eq]
      by_cases hfull : p.slotCount = maxSlots
      · rw [if_pos hfull]
        simp [hnone, hfull]
      · rw [if_neg hfull, isSome_place_iff, h.packed_lt_iff (by omega)]
        constructor
        · intro hroom
          exact ⟨hne, .inr (by omega), by omega⟩
        · rintro ⟨-, -, hroom⟩
          omega
    | some s =>
      have hhas : p.HasFreeSlot := Placed.hasFreeSlot_iff.mpr (by rw [hfree]; simp)
      rw [slotsWithOne, if_pos hhas]
      simp only [Option.isNone_some, Option.isSome_some, Bool.false_and, Option.getD_some,
        Bool.false_eq_true, if_false, if_true]
      rw [isSome_place_iff, h.packed_lt_iff (by omega)]
      constructor
      · intro hroom
        exact ⟨hne, .inl hhas, by omega⟩
      · rintro ⟨-, -, hroom⟩
        omega

/-- The live records without the one of a slot. -/
theorem liveBytes_writeSlot_zero {p : Page} {i : Nat} (hi : i < p.slotCount)
    (hslots : p.slotCount ≤ maxSlots) : (p.writeSlot i ⟨0, 0⟩).liveBytes = p.otherBytes i := by
  have hi' : i < maxSlots := by omega
  rw [liveBytes, otherBytes, slotCount_writeSlot p _ hi',
    ← Finset.add_sum_erase _ _ (Finset.mem_range.mpr hi),
    slot_writeSlot_self p hi' ⟨by decide, by decide⟩, Nat.zero_add]
  refine Finset.sum_congr rfl fun j hj => ?_
  obtain ⟨hne, hmem⟩ := Finset.mem_erase.mp hj
  have hlt := Finset.mem_range.mp hmem
  rw [slot_writeSlot_of_ne p _ hi' (by omega) hne]

theorem liveBytes_eq {p : Page} {i : Nat} (hi : i < p.slotCount) :
    p.liveBytes = (p.slot i).size + p.otherBytes i :=
  (Finset.add_sum_erase _ _ (Finset.mem_range.mpr hi)).symm

theorem Placed.update_iff {p : Page} (h : p.Placed) (i : Nat) (r : Bytes) :
    (p.update i r).1 = true ↔ p.Live i ∧ r ≠ [] ∧
      directoryEnd p.slotCount + p.otherBytes i + r.length ≤ pageSize := by
  have hslots := h.slots
  rw [Page.update, h.hasValidLayout, Bool.not_true, Bool.or_false]
  by_cases hlive : p.Live i ∧ r ≠ []
  · obtain ⟨hlive, hne⟩ := hlive
    have hi := hlive.1
    have hlen := List.length_pos_iff.mpr hne
    have hcount : ¬ p.header.slotCount ≤ i := Nat.not_le.mpr hlive.1
    rw [if_neg (by simp [hcount, hne])]
    dsimp only
    rw [if_neg hlive.2]
    by_cases hsame : r.length = (p.slot i).size
    · -- the record takes the place of the old one
      rw [if_pos hsame]
      have hsum := h.liveBytes_le
      have hdir := h.directory
      have heq := liveBytes_eq hi
      simp only [true_iff]
      exact ⟨hlive, hne, by omega⟩
    · rw [if_neg hsame]
      have htrial := (h.changed_writeSlot hi).placed
      have hother := liveBytes_writeSlot_zero hi hslots
      have hpacked := @Placed.packed_lt_iff _ htrial r.length (by omega)
      rw [slotCount_writeSlot p _ (show i < maxSlots by omega), hother] at hpacked
      by_cases hspace : (p.writeSlot i ⟨0, 0⟩).contiguousFreeSpace < r.length
      · rw [if_pos hspace]
        by_cases hfull : (p.writeSlot i ⟨0, 0⟩).compact.contiguousFreeSpace < r.length
        · rw [if_pos hfull]
          have hbytes := hpacked.mp ⟨hspace, hfull⟩
          simp only [Bool.false_eq_true, false_iff]
          rintro ⟨-, -, hroom⟩
          omega
        · rw [if_neg hfull]
          have hroom := fun hbytes => hfull (hpacked.mpr hbytes).2
          simp only [true_iff]
          exact ⟨hlive, hne, by omega⟩
      · rw [if_neg hspace]
        have hroom := fun hbytes => hspace (hpacked.mpr hbytes).1
        simp only [true_iff]
        exact ⟨hlive, hne, by omega⟩
  · have hfalse : ¬ (p.Live i ∧ r ≠ [] ∧
        directoryEnd p.slotCount + p.otherBytes i + r.length ≤ pageSize) :=
      fun hall => hlive ⟨hall.1, hall.2.1⟩
    simp only [hfalse, iff_false, Bool.not_eq_true]
    by_cases hguard : (r.isEmpty || decide (i ≥ p.header.slotCount)) = true
    · rw [if_pos hguard]
    · rw [if_neg hguard]
      simp only [Bool.or_eq_true, List.isEmpty_iff, decide_eq_true_eq, not_or] at hguard
      rw [if_pos]
      by_contra hsize
      exact hlive ⟨⟨Nat.not_le.mp hguard.2, hsize⟩, hguard.1⟩

/-- On a page that a run of operations has made, a record is refused only where the free bytes do
not suffice, or no slot is left. -/
theorem stores_iff_bytes (ops : List Op) (r : Bytes) :
    (((blank.run ops).2.insert r).1.isSome = true ↔
      r ≠ [] ∧ ((blank.run ops).2.HasFreeSlot ∨ (blank.run ops).2.slotCount < maxSlots) ∧
        directoryEnd (blank.run ops).2.slotsWithOne + (blank.run ops).2.liveBytes + r.length ≤
          pageSize) ∧
    ∀ i, ((blank.run ops).2.update i r).1 = true ↔
      (blank.run ops).2.Live i ∧ r ≠ [] ∧
        directoryEnd (blank.run ops).2.slotCount + (blank.run ops).2.otherBytes i + r.length ≤
          pageSize := by
  have hplaced := (placed_blank.1.run ops).1
  exact ⟨hplaced.insert_isSome_iff r, fun i => hplaced.update_iff i r⟩

end Page

end ScratchDb
