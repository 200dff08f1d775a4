import ScratchDb.Lib.Intervals
import ScratchDb.Storage.PageSlots

/-!
# The layout of a page

The invariant of a page: the records lie apart between the end of the free
space and the end of the page. Under it `read` gives the bytes of the live
slots, and the steps that the operations are made of keep it.
-/

namespace ScratchDb

namespace Page

/-- The slot is in use. -/
def Live (p : Page) (i : Nat) : Prop := i < p.slotCount ∧ (p.slot i).size ≠ 0

/-- The directory and the records lie apart in the page. -/
structure Placed (p : Page) : Prop where
  slots : p.slotCount ≤ maxSlots
  directory : directoryEnd p.slotCount ≤ p.header.freeSpaceEnd
  freeSpaceEnd : p.header.freeSpaceEnd ≤ pageSize
  inside : ∀ i, p.Live i →
    p.header.freeSpaceEnd ≤ (p.slot i).offset ∧ (p.slot i).offset + (p.slot i).size ≤ pageSize
  apart : ∀ i j, p.Live i → p.Live j → i ≠ j →
    Intervals.Apart (p.slot i).offset (p.slot i).size (p.slot j).offset (p.slot j).size

theorem Placed.hasValidLayout {p : Page} (h : p.Placed) : p.hasValidLayout = true := by
  have h1 := h.slots
  have h2 := h.directory
  have h3 := h.freeSpaceEnd
  rw [slotCount] at h1 h2
  rw [directoryEnd] at h2
  simp [Page.hasValidLayout, h1, h2, h3]

theorem Placed.contiguousFreeSpace {p : Page} (h : p.Placed) :
    p.contiguousFreeSpace = p.header.freeSpaceEnd - directoryEnd p.slotCount := by
  have h1 := h.slots
  have h2 := h.directory
  have h3 := h.freeSpaceEnd
  have hmax := maxSlots_eq
  have hsize : pageSize = 4096 := rfl
  have hend := directoryEnd_eq p.slotCount
  have hstart : p.freeSpaceStart = directoryEnd p.slotCount :=
    Nat.mod_eq_of_lt (show directoryEnd p.slotCount < 2 ^ 16 by omega)
  rw [Page.contiguousFreeSpace, h.hasValidLayout, hstart, if_neg (by simp), if_neg (by omega),
    u16Sub, u16, u16]
  omega

/-- `read` gives the records of the live slots. -/
theorem Placed.read_of_live {p : Page} (h : p.Placed) {i : Nat} (hi : p.Live i) :
    p.read i = some (p.slice (p.slot i).offset (p.slot i).size) := by
  have hin := (h.inside i hi).2
  have hcount := hi.1
  rw [slotCount] at hcount
  rw [read, h.hasValidLayout, if_neg (by simpa using hcount)]
  dsimp only
  rw [if_neg (not_or.mpr ⟨hi.2, by omega⟩)]

theorem read_of_not_live {p : Page} {i : Nat} (hi : ¬ p.Live i) : p.read i = none := by
  rw [read]
  split
  · rfl
  · rename_i h
    dsimp only
    rw [if_pos]
    by_contra hsize
    refine hi ⟨?_, (not_or.mp hsize).1⟩
    rw [slotCount]
    simp only [Bool.or_eq_true, decide_eq_true_eq, not_or] at h
    omega

theorem Placed.read_eq_none_iff {p : Page} (h : p.Placed) {i : Nat} :
    p.read i = none ↔ ¬ p.Live i := by
  constructor
  · intro hnone hlive
    rw [h.read_of_live hlive] at hnone
    cases hnone
  · exact read_of_not_live

/-- Pages with the same live slots and the same bytes in them read alike. -/
theorem Placed.read_congr {p q : Page} (hp : p.Placed) (hq : q.Placed) {i : Nat}
    (hlive : q.Live i ↔ p.Live i)
    (hslice : p.Live i → q.slice (q.slot i).offset (q.slot i).size =
      p.slice (p.slot i).offset (p.slot i).size) : q.read i = p.read i := by
  by_cases h : p.Live i
  · rw [hp.read_of_live h, hq.read_of_live (hlive.mpr h), hslice h]
  · rw [read_of_not_live h, read_of_not_live (mt hlive.mp h)]

/-- A page that has no other slots in use than `p`, and has them in the same places. -/
theorem Placed.of_slots {p q : Page} (h : p.Placed) (hcount : q.slotCount = p.slotCount)
    (hend : q.header.freeSpaceEnd = p.header.freeSpaceEnd)
    (hslot : ∀ j, q.Live j → p.Live j ∧ q.slot j = p.slot j) : q.Placed := by
  constructor
  · rw [hcount]
    exact h.slots
  · rw [hcount, hend]
    exact h.directory
  · rw [hend]
    exact h.freeSpaceEnd
  · intro j hj
    obtain ⟨hjp, hsame⟩ := hslot j hj
    rw [hend, hsame]
    exact h.inside j hjp
  · intro j k hj hk hne
    obtain ⟨hjp, hsamej⟩ := hslot j hj
    obtain ⟨hkp, hsamek⟩ := hslot k hk
    rw [hsamej, hsamek]
    exact h.apart j k hjp hkp hne

/-! ## Removing a record -/

theorem slotCount_writeSlot (p : Page) {i : Nat} (s : Slot) (h : i < maxSlots) :
    (p.writeSlot i s).slotCount = p.slotCount := by
  rw [slotCount, slotCount, header_writeSlot p s h]

theorem live_writeSlot_zero {p : Page} {i j : Nat} (h : i < maxSlots) (hj : j < maxSlots) :
    (p.writeSlot i ⟨0, 0⟩).Live j ↔ p.Live j ∧ j ≠ i := by
  rw [Live, Live, slotCount_writeSlot p _ h]
  by_cases hji : j = i
  · subst hji
    rw [slot_writeSlot_self p h ⟨by decide, by decide⟩]
    simp
  · rw [slot_writeSlot_of_ne p _ h hj hji]
    simp [hji]

/-- The page without the record of a slot. -/
theorem Placed.writeSlot_zero {p : Page} (h : p.Placed) {i : Nat} (hi : i < p.slotCount) :
    (p.writeSlot i ⟨0, 0⟩).Placed ∧
      ∀ j, (p.writeSlot i ⟨0, 0⟩).read j = if j = i then none else p.read j := by
  have hslots := h.slots
  have hi' : i < maxSlots := by omega
  have hheader := header_writeSlot p ⟨0, 0⟩ hi'
  have hcount := slotCount_writeSlot p ⟨0, 0⟩ hi'
  -- the live slots are those of `p` without `i`, at the same places
  have hlive : ∀ j, (p.writeSlot i ⟨0, 0⟩).Live j → p.Live j ∧
      (p.writeSlot i ⟨0, 0⟩).slot j = p.slot j := by
    intro j hj
    have hj' : j < maxSlots := by
      have := hj.1
      omega
    obtain ⟨hjp, hne⟩ := (live_writeSlot_zero hi' hj').mp hj
    exact ⟨hjp, slot_writeSlot_of_ne p _ hi' hj' hne⟩
  have hplaced : (p.writeSlot i ⟨0, 0⟩).Placed :=
    h.of_slots hcount (congrArg PageHeader.freeSpaceEnd hheader) hlive
  refine ⟨hplaced, fun j => ?_⟩
  split
  · rename_i hji
    subst hji
    exact read_of_not_live fun hj => ((live_writeSlot_zero hi' hi').mp hj).2 rfl
  · rename_i hji
    refine h.read_congr hplaced ?_ fun hj => ?_
    · constructor
      · exact fun hj => (hlive j hj).1
      · intro hj
        exact (live_writeSlot_zero hi' (by have := hj.1; omega)).mpr ⟨hj, hji⟩
    · have hj' : j < maxSlots := by
        have := hj.1
        omega
      have hbounds := h.inside j hj
      have hdir := h.directory
      have hend := directoryEnd_eq p.slotCount
      have hend' := directoryEnd_eq (i + 1)
      rw [slot_writeSlot_of_ne p _ hi' hj' hji]
      exact slice_congr fun k h1 _ => p.get_writeSlot_of_outside _ hi' (by omega)

/-! ## Writing a record with its slot -/

/-- The record at `offset`, and slot `i` pointing at it. -/
def putRecord (p : Page) (i offset : Nat) (r : Bytes) : Page :=
  (p.copy offset r).writeSlot i ⟨r.length, offset⟩

/-- What is written and what is left alone, in a directory of `n` slots. -/
structure PutRecord (p q : Page) (i n offset : Nat) (r : Bytes) : Prop where
  header : q.header = p.header
  slot : q.slot i = ⟨r.length, offset⟩
  others : ∀ j < n, j ≠ i → q.slot j = p.slot j
  record : q.slice offset r.length = r
  outside : ∀ k, directoryEnd n ≤ k → k < offset ∨ offset + r.length ≤ k → q.get k = p.get k

theorem putRecord_spec (p : Page) {i n offset : Nat} {r : Bytes} (hi : i < n) (hn : n ≤ maxSlots)
    (hstart : directoryEnd n ≤ offset) (hend : offset + r.length ≤ pageSize) :
    PutRecord p (p.putRecord i offset r) i n offset r := by
  have hi' : i < maxSlots := by omega
  have hdir := directoryEnd_eq n
  have hdiri := directoryEnd_eq (i + 1)
  have hsize : pageSize = 4096 := rfl
  constructor
  · rw [putRecord, header_writeSlot _ _ hi', header_copy _ _ (by omega)]
  · exact slot_writeSlot_self _ hi' ⟨by dsimp only; omega, by dsimp only; omega⟩
  · intro j hj hne
    have hdirj := directoryEnd_eq (j + 1)
    rw [putRecord, slot_writeSlot_of_ne _ _ hi' (by omega) hne, slot_copy _ _ (by omega) (by omega)]
  · rw [putRecord, slice_congr fun k h1 _ => get_writeSlot_of_outside _ _ hi' (by omega),
      slice_copy_self _ hend]
  · intro k hk hout
    rw [putRecord, get_writeSlot_of_outside _ _ hi' (by omega), get_copy_of_outside _ hout]

/-! ## Storing a record -/

/-- `q` is `p` with the record `r` below its free space end, in slot `i` of now `n` slots. -/
structure Stored (p q : Page) (i n : Nat) (r : Bytes) : Prop where
  nonempty : r ≠ []
  count : q.slotCount = n
  bound : n ≤ maxSlots
  target : i < n
  free : ¬ p.Live i
  others : ∀ j < n, j ≠ i → j < p.slotCount ∧ q.slot j = p.slot j
  keeps : p.slotCount ≤ n
  room : directoryEnd n + r.length ≤ p.header.freeSpaceEnd
  freeSpaceEnd : q.header.freeSpaceEnd = p.header.freeSpaceEnd - r.length
  slot : q.slot i = ⟨r.length, q.header.freeSpaceEnd⟩
  record : q.slice q.header.freeSpaceEnd r.length = r
  above : ∀ k, p.header.freeSpaceEnd ≤ k → q.get k = p.get k

theorem Stored.live_iff {p q : Page} {i n j : Nat} {r : Bytes} (h : Stored p q i n r) :
    q.Live j ↔ j = i ∨ p.Live j := by
  rw [Live, h.count]
  by_cases hj : j = i
  · subst hj
    have hlen := List.length_pos_iff.mpr h.nonempty
    simp only [h.slot, true_or, iff_true]
    exact ⟨h.target, by omega⟩
  · constructor
    · rintro ⟨hlt, hsize⟩
      obtain ⟨hp, hslot⟩ := h.others j hlt hj
      exact .inr ⟨hp, by rwa [← hslot]⟩
    · rintro (rfl | hlive)
      · exact absurd rfl hj
      · have hlt : j < n := Nat.lt_of_lt_of_le hlive.1 h.keeps
        exact ⟨hlt, by rw [(h.others j hlt hj).2]; exact hlive.2⟩

/-- A record that is stored in the free space is read back, and the others as before. -/
theorem Stored.placed {p q : Page} {i n : Nat} {r : Bytes} (h : Stored p q i n r)
    (hp : p.Placed) : q.Placed ∧ ∀ j, q.read j = if j = i then some r else p.read j := by
  have hroom := h.room
  have hend := h.freeSpaceEnd
  have hpage := hp.freeSpaceEnd
  have hslot : ∀ j, p.Live j → j ≠ i ∧ q.slot j = p.slot j := by
    intro j hj
    have hne : j ≠ i := fun heq => h.free (heq ▸ hj)
    exact ⟨hne, (h.others j (Nat.lt_of_lt_of_le hj.1 h.keeps) hne).2⟩
  have hplaced : q.Placed := by
    constructor
    · rw [h.count]
      exact h.bound
    · rw [h.count]
      omega
    · omega
    · intro j hj
      rcases h.live_iff.mp hj with rfl | hj
      · rw [h.slot]
        dsimp only
        omega
      · have := hp.inside j hj
        rw [(hslot j hj).2]
        omega
    · intro j k hj hk hne
      -- the new record ends where the others may begin
      rcases h.live_iff.mp hj with rfl | hj
      · rcases h.live_iff.mp hk with rfl | hk
        · exact absurd rfl hne
        · have := hp.inside k hk
          rw [h.slot, (hslot k hk).2]
          exact .inl (by dsimp only; omega)
      · have := hp.inside j hj
        rcases h.live_iff.mp hk with rfl | hk
        · rw [h.slot, (hslot j hj).2]
          exact .inr (by dsimp only; omega)
        · rw [(hslot j hj).2, (hslot k hk).2]
          exact hp.apart j k hj hk hne
  refine ⟨hplaced, fun j => ?_⟩
  split
  · rename_i hj
    subst hj
    rw [hplaced.read_of_live (h.live_iff.mpr (.inl rfl)), h.slot, h.record]
  · rename_i hj
    refine hp.read_congr hplaced ?_ fun hlive => ?_
    · rw [h.live_iff]
      exact ⟨fun h => h.resolve_left hj, .inr⟩
    · have := hp.inside j hlive
      rw [(hslot j hlive).2]
      exact slice_congr fun k h1 _ => h.above k (by omega)

/-- The record `r` has room in the page, in slot `i`, which is the next one if `newSlot`. -/
structure Room (p : Page) (i : Nat) (r : Bytes) (newSlot : Bool) : Prop where
  nonempty : r ≠ []
  free : ¬ p.Live i
  target : if newSlot then i = p.slotCount ∧ i < maxSlots else i < p.slotCount
  space : directoryEnd (p.slotCount + newSlot.toNat) + r.length ≤ p.header.freeSpaceEnd

theorem u16Sub_eq {a b : Nat} (hb : b ≤ a) (ha : a < 2 ^ 16) : u16Sub a b = a - b := by
  rw [u16Sub, u16, u16]
  omega

theorem Placed.stored_placeRecord {p : Page} (hp : p.Placed) {i : Nat} {r : Bytes}
    {newSlot : Bool} (h : p.Room i r newSlot) :
    Stored p (p.placeRecord i r newSlot) i (p.slotCount + newSlot.toNat) r := by
  have hslots := hp.slots
  have hpage := hp.freeSpaceEnd
  have hspace := h.space
  have hmax := maxSlots_eq
  have hsize : pageSize = 4096 := rfl
  have hend := directoryEnd_eq (p.slotCount + newSlot.toNat)
  have hi : i < p.slotCount + newSlot.toNat ∧ p.slotCount + newSlot.toNat ≤ maxSlots := by
    have htarget := h.target
    cases newSlot with
    | false => exact ⟨htarget, hslots⟩
    | true =>
      rw [if_pos rfl] at htarget
      exact ⟨by rw [htarget.1]; exact Nat.lt_succ_self _, by rw [← htarget.1]; exact htarget.2⟩
  have hoffset : u16Sub p.header.freeSpaceEnd r.length = p.header.freeSpaceEnd - r.length :=
    u16Sub_eq (by omega) (by omega)
  have hlength : u16 r.length = r.length := Nat.mod_eq_of_lt (by omega)
  have hcount : (if newSlot then u16 (p.header.slotCount + 1) else p.header.slotCount) =
      p.slotCount + newSlot.toNat := by
    rw [slotCount] at hslots ⊢
    cases newSlot with
    | false => rfl
    | true => exact Nat.mod_eq_of_lt (by omega)
  have hput := putRecord_spec p (r := r) hi.1 hi.2
    (show directoryEnd (p.slotCount + newSlot.toNat) ≤ p.header.freeSpaceEnd - r.length by omega)
    (by omega)
  have hplace : p.placeRecord i r newSlot =
      (p.putRecord i (p.header.freeSpaceEnd - r.length) r).writeHeader
        ⟨p.slotCount + newSlot.toNat, p.header.freeSpaceEnd - r.length, p.header.pageLsn⟩ := by
    rw [placeRecord, hoffset, hlength, hcount]
    rfl
  have hheader : (p.placeRecord i r newSlot).header =
      ⟨p.slotCount + newSlot.toNat, p.header.freeSpaceEnd - r.length, p.header.pageLsn⟩ := by
    rw [hplace]
    exact header_writeHeader _ ⟨by dsimp only; omega, by dsimp only; omega, p.header_fits.pageLsn⟩
  have hslot : ∀ j < p.slotCount + newSlot.toNat,
      (p.placeRecord i r newSlot).slot j =
        (p.putRecord i (p.header.freeSpaceEnd - r.length) r).slot j := fun j hj => by
    rw [hplace, slot_writeHeader _ _ (by omega)]
  have hget : ∀ k, directoryEnd (p.slotCount + newSlot.toNat) ≤ k →
      (p.placeRecord i r newSlot).get k =
        (p.putRecord i (p.header.freeSpaceEnd - r.length) r).get k := fun k hk => by
    rw [hplace, get_writeHeader_of_le _ _ (by rw [pageHeaderSize]; omega)]
  refine ⟨h.nonempty, ?_, hi.2, hi.1, h.free, fun j hj hne => ?_, Nat.le_add_right _ _, hspace,
    ?_, ?_, ?_, fun k hk => ?_⟩
  · rw [slotCount, hheader]
  · refine ⟨?_, (hslot j hj).trans (hput.others j hj hne)⟩
    -- a new slot is the last one
    have htarget := h.target
    cases newSlot with
    | false => exact hj
    | true =>
      rw [if_pos rfl] at htarget
      rw [Bool.toNat_true] at hj
      omega
  · rw [hheader]
  · rw [hslot i hi.1, hput.slot, hheader]
  · rw [hheader]
    exact (slice_congr fun k h1 _ => hget k (by dsimp only at h1; omega)).trans hput.record
  · rw [hget k (by omega), hput.outside k (by omega) (by omega)]

theorem pageLsn_placeRecord (p : Page) (i : Nat) (r : Bytes) (newSlot : Bool) :
    (p.placeRecord i r newSlot).pageLsn = p.pageLsn :=
  (pageLsn_writeHeader _ _).trans (Nat.mod_eq_of_lt p.header_fits.pageLsn)

end Page

end ScratchDb
