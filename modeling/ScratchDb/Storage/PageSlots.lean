import ScratchDb.Storage.PageBytes

/-!
# The slot directory of a page

Where the slots lie, and that writing a slot, the header or a record leaves
the others as they are.
-/

namespace ScratchDb

open LittleEndian

namespace Page

/-- The end of a directory of `slots` slots. -/
def directoryEnd (slots : Nat) : Nat := pageHeaderSize + slots * slotSize

theorem directoryEnd_eq (slots : Nat) : directoryEnd slots = 12 + 4 * slots := by
  rw [directoryEnd, pageHeaderSize, slotSize, Nat.mul_comm]

theorem maxSlots_eq : maxSlots = 1021 := rfl

theorem slotOffset_eq {i : Nat} (h : i ≤ maxSlots) : slotOffset i = 12 + 4 * i := by
  have hmax := maxSlots_eq
  have hu16 : slotOffset i = (12 + i * 4) % 2 ^ 16 := rfl
  rw [hu16, Nat.mod_eq_of_lt (by omega), Nat.mul_comm]

/-- The members of a slot fit `uint16_t`. -/
structure SlotFits (s : Slot) : Prop where
  size : s.size < 2 ^ 16
  offset : s.offset < 2 ^ 16

theorem slot_fits (p : Page) (i : Nat) : SlotFits (p.slot i) :=
  ⟨p.readUint_lt _ 2, p.readUint_lt _ 2⟩

theorem slot_congr {p q : Page} {i : Nat} (h : i < maxSlots)
    (hget : ∀ k, 12 ≤ k → k < directoryEnd (i + 1) → p.get k = q.get k) : p.slot i = q.slot i := by
  have hoff := slotOffset_eq (Nat.le_of_lt h)
  have hend := directoryEnd_eq (i + 1)
  rw [slot, slot, readUint_congr fun k h1 h2 => hget k (by omega) (by omega),
    readUint_congr fun k h1 h2 => hget k (by omega) (by omega)]

theorem header_congr {p q : Page} (hget : ∀ k, k < 12 → p.get k = q.get k) :
    p.header = q.header :=
  header_eq_iff.mpr ⟨readUint_congr fun k _ h => hget k (by omega),
    readUint_congr fun k _ h => hget k (by omega), readUint_congr fun k _ h => hget k (by omega)⟩

/-! ## Writing a slot -/

theorem get_writeSlot_of_outside (p : Page) {i : Nat} (s : Slot) (h : i < maxSlots) {k : Nat}
    (hk : k < directoryEnd i ∨ directoryEnd (i + 1) ≤ k) :
    (p.writeSlot i s).get k = p.get k := by
  have hoff := slotOffset_eq (Nat.le_of_lt h)
  have hstart := directoryEnd_eq i
  have hend := directoryEnd_eq (i + 1)
  rw [writeSlot, get_writeUint_of_outside _ (by omega), get_writeUint_of_outside _ (by omega)]

theorem slot_writeSlot_self (p : Page) {i : Nat} {s : Slot} (h : i < maxSlots)
    (hfits : SlotFits s) : (p.writeSlot i s).slot i = s := by
  have hoff := slotOffset_eq (Nat.le_of_lt h)
  have hmax := maxSlots_eq
  have hsize : pageSize = 4096 := rfl
  rw [slot, writeSlot, readUint_writeUint_of_disjoint _ (by omega),
    readUint_writeUint_self _ hfits.size (by omega),
    readUint_writeUint_self _ hfits.offset (by omega)]

theorem slot_writeSlot_of_ne (p : Page) {i j : Nat} (s : Slot) (hi : i < maxSlots)
    (hj : j < maxSlots) (hne : j ≠ i) : (p.writeSlot i s).slot j = p.slot j := by
  have hoffi := slotOffset_eq (Nat.le_of_lt hi)
  have hoffj := slotOffset_eq (Nat.le_of_lt hj)
  rw [slot, writeSlot, readUint_writeUint_of_disjoint _ (by omega),
    readUint_writeUint_of_disjoint _ (by omega), readUint_writeUint_of_disjoint _ (by omega),
    readUint_writeUint_of_disjoint _ (by omega), slot]

theorem header_writeSlot (p : Page) {i : Nat} (s : Slot) (h : i < maxSlots) :
    (p.writeSlot i s).header = p.header :=
  header_congr fun k hk => by
    have := directoryEnd_eq i
    exact p.get_writeSlot_of_outside s h (by omega)

/-! ## Writing a record and the header -/

theorem header_copy (p : Page) {offset : Nat} (record : Bytes) (h : 12 ≤ offset) :
    (p.copy offset record).header = p.header :=
  header_congr fun _ hk => get_copy_of_outside p (by omega)

theorem slot_copy (p : Page) {offset i : Nat} (record : Bytes) (hi : i < maxSlots)
    (h : directoryEnd (i + 1) ≤ offset) : (p.copy offset record).slot i = p.slot i :=
  slot_congr hi fun _ _ hk => get_copy_of_outside p (by omega)

theorem slot_writeHeader (p : Page) (h : PageHeader) {i : Nat} (hi : i < maxSlots) :
    (p.writeHeader h).slot i = p.slot i :=
  slot_congr hi fun _ hk _ => p.get_writeHeader_of_le h hk

theorem slot_setPageLsn (p : Page) (lsn : Nat) {i : Nat} (hi : i < maxSlots) :
    (p.setPageLsn lsn).slot i = p.slot i :=
  slot_writeHeader p _ hi

end Page

end ScratchDb
