import ScratchDb.Storage.PageAccesses

/-!
# Damaged pages

`has_valid_layout` checks the header of a page and no slot. `read` checks the slot
that it is asked for; `update` does not check the slot that it overwrites, and
`compact` none of those that it moves.
-/

namespace ScratchDb

open Accesses Logged

namespace PageAccess

/-! ## Accesses that always stay inside -/

theorem safe_header (p : Page) : (header p).Safe := by
  have hsize : pageSize = 4096 := rfl
  simp only [header, readUint, safe_bind, safe_touch, safe_pure, and_true]
  omega

theorem safe_writeHeader (p : Page) (h : PageHeader) : (writeHeader p h).Safe := by
  have hsize : pageSize = 4096 := rfl
  simp only [writeHeader, writeUint, safe_bind, safe_touch]
  omega

theorem safe_slot (p : Page) {i : Nat} (h : i < maxSlots) : (slot p i).Safe := by
  have hsize : pageSize = 4096 := rfl
  have hmax := Page.maxSlots_eq
  have hoffset := Page.slotOffset_eq (Nat.le_of_lt h)
  simp only [slot, readUint, safe_bind, safe_touch, safe_pure, and_true]
  omega

theorem safe_writeSlot (p : Page) {i : Nat} (s : Slot) (h : i < maxSlots) :
    (writeSlot p i s).Safe := by
  have hsize : pageSize = 4096 := rfl
  have hmax := Page.maxSlots_eq
  have hoffset := Page.slotOffset_eq (Nat.le_of_lt h)
  simp only [writeSlot, writeUint, safe_bind, safe_touch]
  omega

theorem safe_hasValidLayout (p : Page) : (hasValidLayout p).Safe := by
  simp [hasValidLayout, safe_header]

theorem safe_freeSpaceStart (p : Page) : (freeSpaceStart p).Safe := by
  simp [freeSpaceStart, safe_header]

theorem safe_contiguousFreeSpace (p : Page) : (contiguousFreeSpace p).Safe := by
  simp only [contiguousFreeSpace, safe_bind, safe_ite, safe_pure, safe_hasValidLayout,
    safe_header, safe_freeSpaceStart, implies_true, and_true]

theorem safe_firstFreeSlot (p : Page) {count i : Nat} (h : i + count ≤ maxSlots) :
    (firstFreeSlot p count i).Safe := by
  induction count generalizing i with
  | zero => exact safe_pure none
  | succ count ih =>
    rw [firstFreeSlot, safe_bind, safe_ite]
    exact ⟨safe_slot p (by omega), fun _ => safe_pure _, fun _ => ih (by omega)⟩

/-! ## Packing -/

/-- What `has_valid_layout` says of a page. -/
structure ValidLayout (p : Page) : Prop where
  slots : p.slotCount ≤ maxSlots
  directory : Page.directoryEnd p.slotCount ≤ p.header.freeSpaceEnd
  freeSpaceEnd : p.header.freeSpaceEnd ≤ pageSize

theorem validLayout_iff {p : Page} : p.hasValidLayout = true ↔ ValidLayout p := by
  rw [Page.hasValidLayout, Bool.and_eq_true, Bool.and_eq_true, decide_eq_true_eq, decide_eq_true_eq, decide_eq_true_eq]
  exact ⟨fun h => ⟨h.1.1, h.1.2, h.2⟩, fun h => ⟨⟨h.slots, h.directory⟩, h.freeSpaceEnd⟩⟩

/-- The live records lie in the page and are not larger than it together. -/
structure Compactable (p : Page) : Prop where
  inside : ∀ i, p.Live i → (p.slot i).offset + (p.slot i).size ≤ pageSize
  fits : p.liveBytes ≤ pageSize

theorem safe_collectRecords_iff (p : Page) {count i expectedEnd : Nat} {already : Bool}
    (h : i + count ≤ maxSlots) :
    (collectRecords p count i expectedEnd already).Safe ↔
      ∀ j, i ≤ j → j < i + count → (p.slot j).size ≠ 0 →
        (p.slot j).offset + (p.slot j).size ≤ pageSize := by
  induction count generalizing i expectedEnd already with
  | zero =>
    refine ⟨fun _ j hj hlt => by omega, fun _ => safe_pure _⟩
  | succ count ih =>
    rw [collectRecords, safe_bind, safe_ite, value_slot]
    constructor
    · rintro ⟨-, hdead, hlive⟩ j hj hlt hsize
      by_cases hji : j = i
      · subst hji
        have hrecord := (hlive hsize)
        rw [safe_bind, slice, safe_touch] at hrecord
        exact hrecord.1
      · by_cases hi : (p.slot i).size = 0
        · exact (ih (by omega)).mp (hdead hi) j (by omega) (by omega) hsize
        · have hrest := hlive hi
          rw [safe_bind, safe_bind] at hrest
          exact (ih (by omega)).mp hrest.2.1 j (by omega) (by omega) hsize
    · intro hall
      refine ⟨safe_slot p (by omega), fun _ => ?_, fun hsize => ?_⟩
      · exact (ih (by omega)).mpr fun j hj hlt => hall j (by omega) (by omega)
      · rw [safe_bind, safe_bind, slice, safe_touch]
        refine ⟨hall i (Nat.le_refl i) (by omega) hsize, ?_, safe_pure _⟩
        exact (ih (by omega)).mpr fun j hj hlt => hall j (by omega) (by omega)

/-- The end wraps around where the records are too large, so that the first write is outside. -/
theorem safe_rewriteRecords_iff {p : Page} {endOffset : Nat} {rs : List (Nat × Bytes)}
    (hend : endOffset ≤ pageSize) (hids : ∀ r ∈ rs, r.1 < maxSlots)
    (hlength : ∀ r ∈ rs, r.2.length < 2 ^ 16) :
    (rewriteRecords p endOffset rs).Safe ↔ (rs.map fun r => r.2.length).sum ≤ endOffset := by
  have hsize : pageSize = 4096 := rfl
  induction rs generalizing p endOffset with
  | nil => exact ⟨fun _ => Nat.zero_le _, fun _ => safe_pure _⟩
  | cons r rs ih =>
    have hr := hlength r List.mem_cons_self
    rw [rewriteRecords, safe_bind, safe_bind, List.map_cons, List.sum_cons, copy, safe_touch,
      value_touch]
    by_cases hfits : r.2.length ≤ endOffset
    · have hsub : u16Sub endOffset r.2.length = endOffset - r.2.length :=
        Page.u16Sub_eq hfits (by omega)
      have hrest : ∀ q, (rewriteRecords q (endOffset - r.2.length) rs).Safe ↔
          (rs.map fun r => r.2.length).sum ≤ endOffset - r.2.length := by
        intro q
        exact ih (by omega) (fun t ht => hids t (List.mem_cons_of_mem r ht))
          fun t ht => hlength t (List.mem_cons_of_mem r ht)
      rw [hsub, hrest]
      constructor
      · rintro ⟨-, -, hrest⟩
        omega
      · intro hsum
        exact ⟨by omega, safe_writeSlot _ _ (hids r List.mem_cons_self), by omega⟩
    · have hwrap : u16Sub endOffset r.2.length = endOffset + 2 ^ 16 - r.2.length := by
        rw [u16Sub, u16, u16, Nat.mod_eq_of_lt hr, Nat.mod_eq_of_lt (by omega)]
      rw [hwrap]
      constructor
      · rintro ⟨hcopy, -⟩
        omega
      · intro hsum
        omega

theorem collectRecords_false (p : Page) (count i expectedEnd : Nat) :
    (p.collectRecords count i expectedEnd false).2.2 = false := by
  induction count generalizing i expectedEnd with
  | zero => rfl
  | succ count ih =>
    rw [Page.collectRecords]
    dsimp only
    split
    · exact ih _ _
    · rw [Bool.false_and]
      exact ih _ _

/-- Records that lie one behind the other to the end of the page are not larger than it. -/
theorem sum_le_of_already {p : Page} {count i expectedEnd : Nat} {already : Bool}
    (hend : expectedEnd ≤ pageSize)
    (hinside : ∀ j, i ≤ j → j < i + count → (p.slot j).size ≠ 0 →
      (p.slot j).offset + (p.slot j).size ≤ pageSize)
    (halready : (p.collectRecords count i expectedEnd already).2.2 = true) :
    ((p.liveRecords count i).map fun r => r.2.length).sum ≤ expectedEnd := by
  have hsize : pageSize = 4096 := rfl
  induction count generalizing i expectedEnd already with
  | zero => exact Nat.zero_le _
  | succ count ih =>
    rw [Page.collectRecords] at halready
    rw [Page.liveRecords]
    dsimp only at halready
    split at halready
    · rename_i hdead
      rw [if_pos hdead]
      exact ih hend (fun j hj hlt => hinside j (by omega) (by omega)) halready
    · rename_i hlive
      have hbound := hinside i (Nat.le_refl i) (by omega) hlive
      by_cases hroom : (p.slot i).size ≤ expectedEnd
      · have hsub : u16Sub expectedEnd (p.slot i).size = expectedEnd - (p.slot i).size :=
          Page.u16Sub_eq hroom (by omega)
        rw [hsub] at halready
        have hsum := ih (by omega) (fun j hj hlt => hinside j (by omega) (by omega)) halready
        rw [if_neg hlive, List.map_cons, List.sum_cons, Page.length_slice]
        omega
      · -- the expected place would be behind the end of the page
        have hlt := (p.slot_fits i).size
        have hwrap : u16Sub expectedEnd (p.slot i).size =
            expectedEnd + 2 ^ 16 - (p.slot i).size := by
          rw [u16Sub, u16, u16, Nat.mod_eq_of_lt hlt, Nat.mod_eq_of_lt (by omega)]
        have hplace : ¬ (p.slot i).offset = u16Sub expectedEnd (p.slot i).size := by omega
        rw [decide_eq_false hplace, Bool.and_false, collectRecords_false] at halready
        cases halready

theorem compactable_iff {p : Page} :
    Compactable p ↔
      (∀ j, 0 ≤ j → j < 0 + p.slotCount → (p.slot j).size ≠ 0 →
        (p.slot j).offset + (p.slot j).size ≤ pageSize) ∧
      ((p.liveRecords p.slotCount 0).map fun r => r.2.length).sum ≤ pageSize := by
  rw [Page.sum_liveRecords_eq]
  constructor
  · rintro ⟨hinside, hfits⟩
    exact ⟨fun j _ hlt hsize => hinside j ⟨by omega, hsize⟩, hfits⟩
  · rintro ⟨hinside, hfits⟩
    exact ⟨fun j hj => hinside j (Nat.zero_le j) (by have := hj.1; omega) hj.2, hfits⟩

theorem safe_compact_iff (p : Page) :
    (compact p).Safe ↔ (p.hasValidLayout = true → Compactable p) := by
  rw [compact, safe_bind, value_hasValidLayout]
  cases hvalid : p.hasValidLayout with
  | false =>
    rw [Bool.not_false, if_pos rfl]
    simp [safe_hasValidLayout]
  | true =>
    obtain ⟨hslots, -, -⟩ := validLayout_iff.mp hvalid
    have hcollect := @safe_collectRecords_iff p p.slotCount 0 pageSize true (by omega)
    have hids : ∀ r ∈ p.liveRecords p.slotCount 0, r.1 < maxSlots := by
      intro r hr
      have hlt := (Page.mem_liveRecords.mp hr).2.1
      omega
    have hlength : ∀ r ∈ p.liveRecords p.slotCount 0, r.2.length < 2 ^ 16 := by
      intro r hr
      rw [(Page.mem_liveRecords.mp hr).2.2.2, Page.length_slice]
      exact (p.slot_fits r.1).size
    have hrewrite := @safe_rewriteRecords_iff p pageSize _ (Nat.le_refl _) hids hlength
    have hcount : p.header.slotCount = p.slotCount := rfl
    rw [Bool.not_true, if_neg Bool.false_ne_true, safe_bind, safe_bind, value_header, hcount,
      hcollect, safe_ite, value_collectRecords, Page.collectRecords_eq, safe_bind, hrewrite,
      compactable_iff]
    constructor
    · rintro ⟨-, -, hlive, halready, hrest⟩ -
      refine ⟨hlive, ?_⟩
      by_cases hpacked : ((p.collectRecords p.slotCount 0 pageSize true).2.2 &&
          decide (p.header.freeSpaceEnd = (p.collectRecords p.slotCount 0 pageSize true).2.1)) = true
      · exact sum_le_of_already (Nat.le_refl _) hlive ((Bool.and_eq_true _ _).mp hpacked).1
      · exact (hrest hpacked).1
    · intro hcompactable
      obtain ⟨hlive, hsum⟩ := hcompactable rfl
      exact ⟨safe_hasValidLayout p, safe_header p, hlive, fun _ => safe_pure _,
        fun _ => ⟨hsum, safe_writeHeader _ _⟩⟩

/-! ## Storing a record -/

/-- A free space that is not empty is that of a valid header. -/
theorem contiguousFreeSpace_pos {p : Page} (h : 0 < p.contiguousFreeSpace) :
    p.header.freeSpaceEnd ≤ pageSize ∧ p.contiguousFreeSpace ≤ p.header.freeSpaceEnd := by
  have hsize : pageSize = 4096 := rfl
  rw [Page.contiguousFreeSpace] at h ⊢
  cases hvalid : p.hasValidLayout with
  | false =>
    rw [hvalid, Bool.not_false, if_pos rfl] at h
    omega
  | true =>
    have hend := (validLayout_iff.mp hvalid).freeSpaceEnd
    rw [hvalid, Bool.not_true, if_neg Bool.false_ne_true] at h
    rw [Bool.not_true, if_neg Bool.false_ne_true]
    split
    · exact ⟨hend, Nat.zero_le _⟩
    · rename_i hle
      rw [Page.u16Sub_eq (by omega) (by omega)]
      exact ⟨hend, Nat.sub_le _ _⟩

theorem safe_placeRecord {p : Page} {i : Nat} {r : Bytes} (newSlot : Bool) (hi : i < maxSlots)
    (hne : r ≠ []) (hroom : r.length ≤ p.contiguousFreeSpace) :
    (placeRecord p i r newSlot).Safe := by
  have hsize : pageSize = 4096 := rfl
  have hlen := List.length_pos_iff.mpr hne
  obtain ⟨hend, hfree⟩ := contiguousFreeSpace_pos (p := p) (by omega)
  have hsub : u16Sub p.header.freeSpaceEnd r.length = p.header.freeSpaceEnd - r.length :=
    Page.u16Sub_eq (by omega) (by omega)
  rw [placeRecord, safe_bind, safe_bind, safe_bind, value_header, hsub, copy, safe_touch]
  exact ⟨safe_header p, by omega, safe_writeSlot _ _ hi, safe_writeHeader _ _⟩

/-- A record that does not fit the free space has the page packed. -/
theorem safe_storeRecord_iff {p : Page} {i needed : Nat} {r : Bytes} {newSlot : Bool}
    (hi : i < maxSlots) (hne : r ≠ []) (hneeded : r.length ≤ needed) :
    (storeRecord p i r newSlot needed).Safe ↔
      (p.contiguousFreeSpace < needed → p.hasValidLayout = true → Compactable p) := by
  rw [storeRecord, safe_bind, safe_ite, value_contiguousFreeSpace]
  constructor
  · rintro ⟨-, hpacked, -⟩ hfree
    have hcompact := hpacked hfree
    rw [safe_bind] at hcompact
    exact (safe_compact_iff p).mp hcompact.1
  · intro hcompactable
    refine ⟨safe_contiguousFreeSpace p, fun hfree => ?_, fun hfree => ?_⟩
    · rw [safe_bind, safe_bind, safe_ite, value_contiguousFreeSpace, value_compact]
      refine ⟨(safe_compact_iff p).mpr (hcompactable hfree), safe_contiguousFreeSpace _,
        fun _ => safe_pure _, fun hroom => ?_⟩
      rw [safe_bind]
      exact ⟨safe_placeRecord newSlot hi hne (by omega), safe_pure _⟩
    · rw [safe_bind]
      exact ⟨safe_placeRecord newSlot hi hne (by omega), safe_pure _⟩

/-! ## The operations -/

/-- A call of an operation, with its arguments. -/
inductive PageCall where
  | insert (record : Bytes)
  | remove (slotId : Nat)
  | update (slotId : Nat) (record : Bytes)
  | read (slotId : Nat)
  | compact
deriving DecidableEq

def PageCall.accesses (p : Page) : PageCall → List Event
  | .insert record => (PageAccess.insert p record).log
  | .remove slotId => (PageAccess.remove p slotId).log
  | .update slotId record => (PageAccess.update p slotId record).log
  | .read slotId => (PageAccess.read p slotId).log
  | .compact => (PageAccess.compact p).log

/-- All byte accesses of the call lie within the page. -/
def StaysInside (p : Page) (call : PageCall) : Prop := ∀ e ∈ call.accesses p, e.Safe

/-- A call that packs the page packs records that lie in it and are not larger than it, and a call
that writes over a record of the same size finds it in the page. -/
def MovesInside (p : Page) : PageCall → Prop
  | .insert record =>
    record ≠ [] → (p.HasFreeSlot ∨ p.slotCount < maxSlots) →
      p.contiguousFreeSpace < record.length + (if p.HasFreeSlot then 0 else slotSize) → Compactable p
  | .update slotId record =>
    record ≠ [] → p.Live slotId →
      if record.length = (p.slot slotId).size then
        (p.slot slotId).offset + (p.slot slotId).size ≤ pageSize
      else p.contiguousFreeSpace < record.length → Compactable (p.writeSlot slotId ⟨0, 0⟩)
  | .compact => Compactable p
  | .remove _ => True
  | .read _ => True

theorem safe_insert_iff (p : Page) (r : Bytes) :
    (insert p r).Safe ↔ (p.hasValidLayout = true → MovesInside p (.insert r)) := by
  rw [insert]
  by_cases hne : r = []
  · simp [hne, MovesInside]
  · have hempty : r.isEmpty = false := by simpa using hne
    rw [hempty, if_neg Bool.false_ne_true, safe_bind, value_hasValidLayout]
    cases hvalid : p.hasValidLayout with
    | false => simp [safe_hasValidLayout]
    | true =>
      obtain ⟨hslots, -, -⟩ := validLayout_iff.mp hvalid
      have hcount : p.header.slotCount = p.slotCount := rfl
      have hfind : (firstFreeSlot p p.slotCount 0).Safe := safe_firstFreeSlot p (by omega)
      rw [Bool.not_true, if_neg Bool.false_ne_true, safe_bind, value_header, hcount, safe_bind,
        value_firstFreeSlot, MovesInside]
      have hfree := @Page.Placed.hasFreeSlot_iff p
      cases hfirst : p.firstFreeSlot p.slotCount 0 with
      | none =>
        have hnone : ¬ p.HasFreeSlot := fun hhas => hfree.mp hhas hfirst
        rw [Option.isNone_none, Bool.true_and, Option.getD_none, safe_ite, if_neg hnone]
        simp only [beq_iff_eq, Option.isSome_none, Bool.false_eq_true, if_false]
        by_cases hfull : p.slotCount = maxSlots
        · constructor
          · rintro - - - (hhas | hlt)
            · exact absurd hhas hnone
            · exact absurd hfull (Nat.ne_of_lt hlt)
          · intro _
            exact ⟨safe_hasValidLayout p, safe_header p, hfind, fun _ => safe_pure _,
              fun h => absurd hfull h⟩
        · have hi : p.slotCount < maxSlots := by omega
          have hstore := @safe_storeRecord_iff p p.slotCount (r.length + slotSize) r true hi hne
            (Nat.le_add_right _ _)
          rw [safe_bind, hstore]
          constructor
          · rintro ⟨-, -, -, -, hall⟩ - - - hroom
            exact (hall hfull).1 hroom hvalid
          · intro hall
            exact ⟨safe_hasValidLayout p, safe_header p, hfind, fun h => absurd h hfull,
              fun _ => ⟨fun hroom _ => hall trivial hne (.inr hi) hroom, safe_pure _⟩⟩
      | some s =>
        have hhas : p.HasFreeSlot := hfree.mpr (by rw [hfirst]; exact Option.some_ne_none s)
        have hs := (Page.firstFreeSlot_eq_some hfirst).2.1
        have hstore := @safe_storeRecord_iff p s (r.length + 0) r false (by omega) hne (Nat.le_refl _)
        rw [Option.isNone_some, Bool.false_and, Option.getD_some, if_neg Bool.false_ne_true,
          if_pos hhas, Option.isSome_some, if_pos rfl, safe_bind, hstore]
        constructor
        · rintro ⟨-, -, -, hall, -⟩ - - - hroom
          exact hall hroom hvalid
        · intro hall
          exact ⟨safe_hasValidLayout p, safe_header p, hfind,
            fun hroom _ => hall rfl hne (.inl hhas) hroom, safe_pure _⟩

theorem safe_remove (p : Page) (i : Nat) : (remove p i).Safe := by
  rw [remove, safe_bind, value_hasValidLayout]
  refine ⟨safe_hasValidLayout p, ?_⟩
  cases hvalid : p.hasValidLayout with
  | false => simp
  | true =>
    obtain ⟨hslots, -, -⟩ := validLayout_iff.mp hvalid
    have hcount : p.header.slotCount = p.slotCount := rfl
    rw [Bool.not_true, if_neg Bool.false_ne_true, safe_bind, value_header, hcount, safe_ite]
    refine ⟨safe_header p, fun _ => safe_pure _, fun hi => ?_⟩
    rw [safe_bind, safe_ite, safe_bind]
    exact ⟨safe_slot p (by omega), fun _ => safe_pure _,
      fun _ => ⟨safe_writeSlot _ _ (by omega), safe_pure _⟩⟩

theorem safe_read (p : Page) (i : Nat) : (read p i).Safe := by
  rw [read, safe_bind, value_hasValidLayout]
  refine ⟨safe_hasValidLayout p, ?_⟩
  cases hvalid : p.hasValidLayout with
  | false => simp
  | true =>
    obtain ⟨hslots, -, -⟩ := validLayout_iff.mp hvalid
    have hcount : p.header.slotCount = p.slotCount := rfl
    rw [Bool.not_true, if_neg Bool.false_ne_true, safe_bind, value_header, hcount, safe_ite]
    refine ⟨safe_header p, fun _ => safe_pure _, fun hi => ?_⟩
    rw [safe_bind, safe_ite, safe_bind, value_slot, slice, safe_touch]
    exact ⟨safe_slot p (by omega), fun _ => safe_pure _,
      fun hbound => ⟨by omega, safe_pure _⟩⟩

theorem contiguousFreeSpace_writeSlot (p : Page) {i : Nat} (s : Slot) (h : i < maxSlots) :
    (p.writeSlot i s).contiguousFreeSpace = p.contiguousFreeSpace ∧
      (p.writeSlot i s).hasValidLayout = p.hasValidLayout := by
  have hheader := Page.header_writeSlot p s h
  constructor
  · unfold Page.contiguousFreeSpace Page.hasValidLayout Page.freeSpaceStart
    rw [hheader]
  · rw [Page.hasValidLayout, hheader, Page.hasValidLayout]

theorem safe_update_iff (p : Page) (i : Nat) (r : Bytes) :
    (update p i r).Safe ↔ (p.hasValidLayout = true → MovesInside p (.update i r)) := by
  rw [update]
  by_cases hne : r = []
  · simp [hne, MovesInside]
  · have hempty : r.isEmpty = false := by simpa using hne
    rw [hempty, if_neg Bool.false_ne_true, safe_bind, value_hasValidLayout]
    cases hvalid : p.hasValidLayout with
    | false => simp [safe_hasValidLayout]
    | true =>
      obtain ⟨hslots, -, -⟩ := validLayout_iff.mp hvalid
      have hcount : p.header.slotCount = p.slotCount := rfl
      rw [Bool.not_true, if_neg Bool.false_ne_true, safe_bind, value_header, hcount, safe_ite,
        safe_bind, value_slot, safe_ite, safe_ite, MovesInside, safe_bind, safe_bind,
        safe_bind, copy, safe_touch]
      by_cases hi : i ≥ p.slotCount
      · have hdead : ¬ p.Live i := fun hlive => absurd hlive.1 (Nat.not_lt_of_le hi)
        simp [hi, hdead, safe_hasValidLayout, safe_header]
      · have hi' : i < maxSlots := by omega
        by_cases hzero : (p.slot i).size = 0
        · have hdead : ¬ p.Live i := fun hlive => hlive.2 hzero
          simp [hi, hzero, hdead, safe_hasValidLayout, safe_header, safe_slot p hi']
        · have hlive : p.Live i := ⟨Nat.lt_of_not_le hi, hzero⟩
          obtain ⟨hspace, hlayout⟩ := contiguousFreeSpace_writeSlot p ⟨0, 0⟩ hi'
          have hstore := @safe_storeRecord_iff (p.writeSlot i ⟨0, 0⟩) i r.length r false hi' hne
            (Nat.le_refl _)
          rw [hspace, hlayout] at hstore
          rw [value_writeSlot, hstore]
          by_cases hsame : r.length = (p.slot i).size
          · rw [if_pos hsame, ← hsame]
            simp [hi, hne, hlive, safe_hasValidLayout, safe_header, safe_slot p hi',
              Nat.ne_of_gt (List.length_pos_iff.mpr hne)]
          · rw [if_neg hsame]
            simp [hi, hne, hlive, hsame, hzero, hvalid, safe_hasValidLayout, safe_header,
              safe_slot p hi', safe_writeSlot p ⟨0, 0⟩ hi']

/-- On a page of any bytes, an operation stays inside the page exactly if the records that it moves
lie in it. -/
theorem staysInside_iff (p : Page) (call : PageCall) :
    StaysInside p call ↔ (p.hasValidLayout = true → MovesInside p call) := by
  cases call with
  | insert record => exact safe_insert_iff p record
  | remove slotId => exact ⟨fun _ _ => trivial, fun _ => safe_remove p slotId⟩
  | update slotId record => exact safe_update_iff p slotId record
  | read slotId => exact ⟨fun _ _ => trivial, fun _ => safe_read p slotId⟩
  | compact => exact safe_compact_iff p

/-- A page of one slot, whose record of ten bytes begins six bytes before the end. -/
def slotBehindEnd : Page := (Page.blank.writeHeader ⟨1, 4000, 0⟩).writeSlot 0 ⟨10, 4090⟩

/-- `update` writes the last four bytes behind the page. -/
theorem update_leaves_page :
    slotBehindEnd.hasValidLayout = true ∧
      ¬ StaysInside slotBehindEnd (.update 0 (List.replicate 10 1)) := by
  have hheader : slotBehindEnd.header = ⟨1, 4000, 0⟩ :=
    (Page.header_writeSlot _ _ (by decide)).trans
      (Page.header_writeHeader _ ⟨by decide, by decide, by decide⟩)
  have hslot : slotBehindEnd.slot 0 = ⟨10, 4090⟩ :=
    Page.slot_writeSlot_self _ (by decide) ⟨by decide, by decide⟩
  have hvalid : slotBehindEnd.hasValidLayout = true := by
    rw [Page.hasValidLayout, hheader]
    decide
  refine ⟨hvalid, fun hinside => ?_⟩
  have hlive : slotBehindEnd.Live 0 := by
    rw [Page.Live, Page.slotCount, hheader, hslot]
    decide
  have hmoves := (safe_update_iff _ _ _).mp hinside hvalid (by decide) hlive
  rw [hslot, if_pos (by decide)] at hmoves
  exact absurd hmoves (by decide)

end PageAccess

end ScratchDb
