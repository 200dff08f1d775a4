import Mathlib.Data.List.GetD
import ScratchDb.Storage.Page

/-!
# Reading back what was written to a page

Byte-level facts about `copy`, the integer fields, the header and the slots:
a field read after it was written, and the fields a write leaves alone.
-/

namespace ScratchDb

open LittleEndian

namespace Page

/-! ## Bytes -/

theorem get_of_lt (p : Page) {i : Nat} (h : i < pageSize) : p.get i = p.byte ⟨i, h⟩ := by
  simp [get, h]

theorem ext_get {p q : Page} (h : ∀ i, i < pageSize → p.get i = q.get i) : p = q := by
  refine Page.ext (funext fun i => ?_)
  rw [← p.get_of_lt i.isLt, ← q.get_of_lt i.isLt]
  exact h i.val i.isLt

theorem get_copy (p : Page) (offset : Nat) (bytes : Bytes) (i : Nat) :
    (p.copy offset bytes).get i =
      if offset ≤ i ∧ i < offset + bytes.length ∧ i < pageSize then bytes.getD (i - offset) 0
      else p.get i := by
  by_cases hi : i < pageSize
  · by_cases h : offset ≤ i ∧ i < offset + bytes.length <;> simp [get, copy, hi, h]
  · simp [get, hi]

theorem get_copy_of_outside (p : Page) {offset : Nat} {bytes : Bytes} {i : Nat}
    (h : i < offset ∨ offset + bytes.length ≤ i) : (p.copy offset bytes).get i = p.get i := by
  rw [get_copy, if_neg (by omega)]

@[simp] theorem length_slice (p : Page) (offset size : Nat) :
    (p.slice offset size).length = size := by
  simp [slice]

theorem slice_congr {p q : Page} {offset size : Nat}
    (h : ∀ i, offset ≤ i → i < offset + size → p.get i = q.get i) :
    p.slice offset size = q.slice offset size := by
  refine List.map_congr_left fun i hi => h _ (Nat.le_add_right _ _) ?_
  have := List.mem_range.mp hi
  omega

theorem slice_copy_self (p : Page) {offset : Nat} {bytes : Bytes}
    (h : offset + bytes.length ≤ pageSize) :
    (p.copy offset bytes).slice offset bytes.length = bytes := by
  refine List.ext_getElem (by simp) fun i h1 h2 => ?_
  have hi : i < bytes.length := h2
  simp only [slice, List.getElem_map, List.getElem_range, get_copy]
  rw [if_pos (by omega), Nat.add_sub_cancel_left, List.getD_eq_getElem _ _ hi]

theorem slice_copy_of_disjoint (p : Page) {offset : Nat} {bytes : Bytes} {offset' size : Nat}
    (h : offset' + size ≤ offset ∨ offset + bytes.length ≤ offset') :
    (p.copy offset bytes).slice offset' size = p.slice offset' size :=
  slice_congr fun i h1 h2 => get_copy_of_outside p (by omega)

theorem image_getD (p : Page) (i : Nat) : p.image.getD i 0 = p.get i := by
  by_cases hi : i < pageSize
  · rw [List.getD_eq_getElem _ _ (by rw [image, List.length_ofFn]; exact hi), get_of_lt _ hi]
    exact List.getElem_ofFn _
  · rw [List.getD_eq_default _ _ (by rw [image, List.length_ofFn]; omega), get, dif_neg hi]

@[simp] theorem length_image (p : Page) : p.image.length = pageSize := List.length_ofFn

theorem ofImage_of_length {bytes : Bytes} (h : bytes.length = pageSize) :
    ofImage bytes = ⟨fun i => bytes.getD i.val 0⟩ := if_pos h

@[simp] theorem ofImage_image (p : Page) : ofImage p.image = p := by
  refine (ofImage_of_length p.length_image).trans (ext_get fun i hi => ?_)
  refine (get_of_lt _ hi).trans ?_
  rw [← image_getD p]

theorem image_ofImage {bytes : Bytes} (h : bytes.length = pageSize) :
    (ofImage bytes).image = bytes := by
  refine List.ext_getElem (by rw [length_image, h]) fun i h1 h2 => ?_
  have hi : i < pageSize := by rwa [h] at h2
  rw [← List.getD_eq_getElem _ 0 h1, image_getD, ofImage_of_length h, get_of_lt _ hi]
  exact List.getD_eq_getElem _ _ h2

/-! ## Integer fields -/

theorem readUint_lt (p : Page) (offset size : Nat) : p.readUint offset size < 256 ^ size := by
  simpa [readUint] using decode_lt (p.slice offset size)

theorem readUint_congr {p q : Page} {offset size : Nat}
    (h : ∀ i, offset ≤ i → i < offset + size → p.get i = q.get i) :
    p.readUint offset size = q.readUint offset size := by
  rw [readUint, readUint, slice_congr h]

theorem readUint_writeUint_self (p : Page) {offset size v : Nat} (hv : v < 256 ^ size)
    (h : offset + size ≤ pageSize) : (p.writeUint offset size v).readUint offset size = v := by
  have hslice : (p.copy offset (encode size v)).slice offset (encode size v).length =
      encode size v := slice_copy_self p (by simpa using h)
  rw [length_encode] at hslice
  rw [readUint, writeUint, hslice, decode_encode hv]

theorem readUint_writeUint_of_disjoint (p : Page) {offset size v offset' size' : Nat}
    (h : offset' + size' ≤ offset ∨ offset + size ≤ offset') :
    (p.writeUint offset size v).readUint offset' size' = p.readUint offset' size' := by
  rw [readUint, writeUint, slice_copy_of_disjoint p (by simpa using h), readUint]

theorem get_writeUint_of_outside (p : Page) {offset size v i : Nat}
    (h : i < offset ∨ offset + size ≤ i) : (p.writeUint offset size v).get i = p.get i :=
  get_copy_of_outside p (by simpa using h)

/-- Writing back what is there changes nothing. -/
theorem writeUint_readUint (p : Page) (offset size : Nat) :
    p.writeUint offset size (p.readUint offset size) = p := by
  refine ext_get fun i hi => ?_
  have hslice := encode_decode (p.slice offset size)
  rw [length_slice] at hslice
  rw [writeUint, readUint, hslice, get_copy]
  split
  · rename_i h
    have hlt : i - offset < size := by
      have := h.2.1
      rw [length_slice] at this
      omega
    rw [List.getD_eq_getElem _ _ (by simpa using hlt)]
    simp [slice, Nat.add_sub_cancel' h.1]
  · rfl

/-! ## Header and slots -/

theorem header_eq_iff {p q : Page} : p.header = q.header ↔
    p.readUint 0 2 = q.readUint 0 2 ∧ p.readUint 2 2 = q.readUint 2 2 ∧
      p.readUint 4 8 = q.readUint 4 8 := by
  simp [header]

/-- The fields of a header fit their widths. -/
structure HeaderFits (h : PageHeader) : Prop where
  slotCount : h.slotCount < 2 ^ 16
  freeSpaceEnd : h.freeSpaceEnd < 2 ^ 16
  pageLsn : h.pageLsn < 2 ^ 64

theorem header_fits (p : Page) : HeaderFits p.header :=
  ⟨p.readUint_lt 0 2, p.readUint_lt 2 2, p.readUint_lt 4 8⟩

theorem header_writeHeader (p : Page) {h : PageHeader} (hfits : HeaderFits h) :
    (p.writeHeader h).header = h := by
  have h1 : pageSize = 4096 := rfl
  unfold writeHeader header
  rw [readUint_writeUint_of_disjoint _ (by omega), readUint_writeUint_of_disjoint _ (by omega),
    readUint_writeUint_self _ hfits.slotCount (by omega),
    readUint_writeUint_of_disjoint _ (by omega),
    readUint_writeUint_self _ hfits.freeSpaceEnd (by omega),
    readUint_writeUint_self _ hfits.pageLsn (by omega)]

theorem get_writeHeader_of_le (p : Page) (h : PageHeader) {i : Nat} (hi : pageHeaderSize ≤ i) :
    (p.writeHeader h).get i = p.get i := by
  have h1 : pageHeaderSize = 12 := rfl
  unfold writeHeader
  rw [get_writeUint_of_outside _ (by omega), get_writeUint_of_outside _ (by omega),
    get_writeUint_of_outside _ (by omega)]

theorem pageLsn_writeHeader (p : Page) (h : PageHeader) :
    (p.writeHeader h).pageLsn = h.pageLsn % 2 ^ 64 := by
  have h1 : pageSize = 4096 := rfl
  have hslice : (p.writeHeader h).slice 4 (encode 8 h.pageLsn).length = encode 8 h.pageLsn :=
    slice_copy_self _ (by rw [length_encode]; omega)
  rw [length_encode] at hslice
  have hread : (p.writeHeader h).pageLsn = decode (encode 8 h.pageLsn) := congrArg decode hslice
  have hwidth : (256 : Nat) ^ 8 = 2 ^ 64 := by norm_num
  rw [hread, decode_encode_mod, hwidth]

theorem pageLsn_setPageLsn (p : Page) (lsn : Nat) : (p.setPageLsn lsn).pageLsn = lsn % 2 ^ 64 :=
  pageLsn_writeHeader p _

/-- Packing a page keeps its `page_lsn`. -/
theorem pageLsn_compact (p : Page) : p.compact.pageLsn = p.pageLsn := by
  unfold compact
  split
  · rfl
  · simp only
    split
    · rfl
    · rw [pageLsn_writeHeader]
      exact Nat.mod_eq_of_lt p.header_fits.pageLsn

/-- A failed insert leaves the page as it was, or packed. -/
theorem insert_none {p q : Page} {record : Bytes} (h : p.insert record = (none, q)) :
    q = p ∨ q = p.compact := by
  unfold insert at h
  simp only at h
  generalize (if (p.firstFreeSlot p.header.slotCount 0).isSome then 0 else slotSize) = extra at h
  split at h
  · exact Or.inl (Prod.mk.inj h).2.symm
  · split at h
    · exact Or.inl (Prod.mk.inj h).2.symm
    · split at h
      · split at h
        · exact Or.inr (Prod.mk.inj h).2.symm
        · cases (Prod.mk.inj h).1
      · cases (Prod.mk.inj h).1

/-- Only the eight bytes of the `page_lsn` change. -/
theorem get_setPageLsn_of_outside (p : Page) (lsn : Nat) {i : Nat} (hi : i < 4 ∨ 12 ≤ i) :
    (p.setPageLsn lsn).get i = p.get i := by
  have hlast : (p.setPageLsn lsn).get i =
      ((p.writeUint 0 2 (p.readUint 0 2)).writeUint 2 2 (p.readUint 2 2)).get i :=
    get_writeUint_of_outside _ (by omega)
  rw [writeUint_readUint, writeUint_readUint] at hlast
  exact hlast

theorem header_setPageLsn (p : Page) {lsn : Nat} (h : lsn < 2 ^ 64) :
    (p.setPageLsn lsn).header = { p.header with pageLsn := lsn } :=
  header_writeHeader p ⟨p.header_fits.slotCount, p.header_fits.freeSpaceEnd, h⟩

/-- The page without its `page_lsn`. -/
def withoutPageLsn (p : Page) : Page :=
  ⟨fun i => if 4 ≤ i.val ∧ i.val < 12 then 0 else p.byte i⟩

theorem get_withoutPageLsn (p : Page) (i : Nat) :
    p.withoutPageLsn.get i = if 4 ≤ i ∧ i < 12 then 0 else p.get i := by
  by_cases hi : i < pageSize
  · simp [get, withoutPageLsn, hi]
  · simp [get, hi]

theorem withoutPageLsn_setPageLsn (p : Page) (lsn : Nat) :
    (p.setPageLsn lsn).withoutPageLsn = p.withoutPageLsn := by
  refine ext_get fun i _ => ?_
  rw [get_withoutPageLsn, get_withoutPageLsn]
  split
  · rfl
  · exact get_setPageLsn_of_outside p lsn (by omega)

end Page

end ScratchDb
