import ScratchDb.Storage.PageLayout

/-!
# Packing the records of a page

`compact` reads the live records and writes them again from the end of the
page. Each is read before the first is written, so it does not matter that a
record may be written over the old place of another.
-/

namespace ScratchDb

namespace Page

/-! ## Collecting -/

/-- The live records of the `count` slots from `i` on. -/
def liveRecords (p : Page) : Nat → Nat → List (Nat × Bytes)
  | 0, _ => []
  | count + 1, i =>
    if (p.slot i).size = 0 then p.liveRecords count (i + 1)
    else (i, p.slice (p.slot i).offset (p.slot i).size) :: p.liveRecords count (i + 1)

theorem collectRecords_eq (p : Page) (count i expectedEnd : Nat) (already : Bool) :
    (p.collectRecords count i expectedEnd already).1 = p.liveRecords count i := by
  induction count generalizing i expectedEnd already with
  | zero => rfl
  | succ count ih =>
    rw [collectRecords, liveRecords]
    dsimp only
    split
    · exact ih _ _ _
    · exact congrArg _ (ih _ _ _)

theorem mem_liveRecords {p : Page} {count i : Nat} {r : Nat × Bytes} :
    r ∈ p.liveRecords count i ↔ i ≤ r.1 ∧ r.1 < i + count ∧ (p.slot r.1).size ≠ 0 ∧
      r.2 = p.slice (p.slot r.1).offset (p.slot r.1).size := by
  induction count generalizing i with
  | zero =>
    rw [liveRecords]
    simp only [List.not_mem_nil, false_iff, not_and]
    omega
  | succ count ih =>
    rw [liveRecords]
    split
    · rename_i hdead
      rw [ih]
      constructor
      · rintro ⟨h1, h2, h3⟩
        exact ⟨by omega, by omega, h3⟩
      · rintro ⟨h1, h2, h3⟩
        have hne : r.1 ≠ i := fun heq => h3.1 (heq ▸ hdead)
        exact ⟨by omega, by omega, h3⟩
    · rename_i hlive
      rw [List.mem_cons, ih]
      constructor
      · rintro (rfl | ⟨h1, h2, h3⟩)
        · exact ⟨Nat.le_refl _, by dsimp only; omega, hlive, rfl⟩
        · exact ⟨by omega, by omega, h3⟩
      · rintro ⟨h1, h2, h3⟩
        by_cases heq : r.1 = i
        · refine .inl (Prod.ext heq ?_)
          rw [h3.2, heq]
        · exact .inr ⟨by omega, by omega, h3⟩

/-- The records come in the order of their slots. -/
theorem pairwise_liveRecords (p : Page) (count i : Nat) :
    (p.liveRecords count i).Pairwise fun r t => r.1 < t.1 := by
  induction count generalizing i with
  | zero => exact .nil
  | succ count ih =>
    rw [liveRecords]
    split
    · exact ih _
    · refine List.pairwise_cons.mpr ⟨fun t ht => ?_, ih _⟩
      have := (mem_liveRecords.mp ht).1
      dsimp only
      omega

/-! ## Rewriting -/

/-- What rewriting the records `rs` below `e` does, in a directory of `n` slots: the last one
begins at `e'`. -/
structure Rewritten (p q : Page) (n e e' : Nat) (rs : List (Nat × Bytes)) : Prop where
  header : q.header = p.header
  ends : e' + (rs.map fun r => r.2.length).sum = e
  others : ∀ j < n, (∀ r ∈ rs, r.1 ≠ j) → q.slot j = p.slot j
  above : ∀ k, e ≤ k → q.get k = p.get k
  stored : ∀ r ∈ rs, (q.slot r.1).size = r.2.length ∧ e' ≤ (q.slot r.1).offset ∧
    (q.slot r.1).offset + r.2.length ≤ e ∧ q.slice (q.slot r.1).offset r.2.length = r.2
  apart : rs.Pairwise fun r t => (q.slot t.1).offset + t.2.length ≤ (q.slot r.1).offset

theorem rewriteRecords_spec {p : Page} {n e : Nat} {rs : List (Nat × Bytes)} (hn : n ≤ maxSlots)
    (he : e ≤ pageSize) (hroom : directoryEnd n + (rs.map fun r => r.2.length).sum ≤ e)
    (hids : ∀ r ∈ rs, r.1 < n) (hne : rs.Pairwise fun r t => r.1 < t.1) :
    Rewritten p (p.rewriteRecords e rs).1 n e (p.rewriteRecords e rs).2 rs := by
  induction rs generalizing p e with
  | nil =>
    exact ⟨rfl, rfl, fun _ _ _ => rfl, fun _ _ => rfl, by simp, .nil⟩
  | cons r rs ih =>
    have hsize : pageSize = 4096 := rfl
    rw [List.map_cons, List.sum_cons] at hroom
    obtain ⟨hlt, hne⟩ := List.pairwise_cons.mp hne
    have hoffset : u16Sub e r.2.length = e - r.2.length := u16Sub_eq (by omega) (by omega)
    have hlength : u16 r.2.length = r.2.length := Nat.mod_eq_of_lt (by omega)
    have hput := putRecord_spec p (r := r.2) (hids r List.mem_cons_self) hn
      (show directoryEnd n ≤ e - r.2.length by omega) (by omega)
    have hstep : p.rewriteRecords e (r :: rs) =
        (p.putRecord r.1 (e - r.2.length) r.2).rewriteRecords (e - r.2.length) rs := by
      rw [rewriteRecords, hoffset, hlength]
      rfl
    have hrest := ih (p := p.putRecord r.1 (e - r.2.length) r.2) (e := e - r.2.length) (by omega)
      (by omega) (fun t ht => hids t (List.mem_cons_of_mem r ht)) hne
    rw [hstep]
    -- what is written for `r` is left alone by the rest
    have hslot := (hrest.others r.1 (hids r List.mem_cons_self)
      fun t ht => Nat.ne_of_gt (hlt t ht)).trans hput.slot
    have hends := hrest.ends
    refine ⟨hrest.header.trans hput.header, ?_, fun j hj hnot => ?_, fun k hk => ?_,
      fun t ht => ?_, List.pairwise_cons.mpr ⟨fun t ht => ?_, hrest.apart⟩⟩
    · rw [List.map_cons, List.sum_cons]
      omega
    · rw [hrest.others j hj fun t ht => hnot t (List.mem_cons_of_mem r ht)]
      exact hput.others j hj (Ne.symm (hnot r List.mem_cons_self))
    · rw [hrest.above k (by omega), hput.outside k (by omega) (by omega)]
    · rcases List.mem_cons.mp ht with rfl | ht
      · rw [hslot]
        refine ⟨rfl, by dsimp only; omega, by dsimp only; omega, ?_⟩
        exact (slice_congr fun k h1 _ => hrest.above k h1).trans hput.record
      · have := hrest.stored t ht
        exact ⟨this.1, this.2.1, by omega, this.2.2.2⟩
    · rw [hslot]
      exact (hrest.stored t ht).2.2.1

/-! ## `compact` -/

/-- The live records have room from the end of the page down to the free space. -/
theorem Placed.sum_liveRecords {p : Page} (h : p.Placed) :
    ((p.liveRecords p.slotCount 0).map fun r => r.2.length).sum ≤
      pageSize - p.header.freeSpaceEnd := by
  have hlive : ∀ r ∈ p.liveRecords p.slotCount 0,
      p.Live r.1 ∧ r.2.length = (p.slot r.1).size := by
    intro r hr
    obtain ⟨-, hlt, hsize, hrecord⟩ := mem_liveRecords.mp hr
    exact ⟨⟨by omega, hsize⟩, by rw [hrecord, length_slice]⟩
  refine @Intervals.sum_length_le _ _ (fun r => (p.slot r.1).offset) _ _ _ (fun r hr => ?_) ?_
  · obtain ⟨hl, hlen⟩ := hlive r hr
    rw [hlen]
    exact h.inside r.1 hl
  · refine (p.pairwise_liveRecords p.slotCount 0).imp_of_mem fun {r t} hr ht hlt => ?_
    obtain ⟨hlr, hlenr⟩ := hlive r hr
    obtain ⟨hlt', hlent⟩ := hlive t ht
    rw [hlenr, hlent]
    exact h.apart r.1 t.1 hlr hlt' (Nat.ne_of_lt hlt)

/-- The page with its records rewritten. -/
def rewritten (p : Page) : Page :=
  let rewrite := p.rewriteRecords pageSize (p.liveRecords p.slotCount 0)
  rewrite.1.writeHeader { p.header with freeSpaceEnd := rewrite.2 }

theorem compact_eq (p : Page) : p.compact = p ∨ p.compact = p.rewritten := by
  rw [compact]
  split
  · exact .inl rfl
  · dsimp only
    split
    · exact .inl rfl
    · right
      rw [collectRecords_eq]
      rfl

theorem Placed.rewritten {p : Page} (h : p.Placed) :
    p.rewritten.Placed ∧ p.rewritten.slotCount = p.slotCount ∧
      ∀ i, p.rewritten.read i = p.read i := by
  have hsum := h.sum_liveRecords
  have hslots := h.slots
  have hdir := h.directory
  have hpage := h.freeSpaceEnd
  have hsize : pageSize = 4096 := rfl
  have hrewrite := @rewriteRecords_spec p p.slotCount pageSize (p.liveRecords p.slotCount 0)
    h.slots (Nat.le_refl _) (by omega) (fun r hr => by have := (mem_liveRecords.mp hr).2.1; omega)
    (p.pairwise_liveRecords _ _)
  have hends := hrewrite.ends
  have hroom : directoryEnd p.slotCount ≤
      (p.rewriteRecords pageSize (p.liveRecords p.slotCount 0)).2 := by omega
  have hdirectory := directoryEnd_eq p.slotCount
  -- the header is written last
  have hheader : p.rewritten.header = ⟨p.slotCount,
      (p.rewriteRecords pageSize (p.liveRecords p.slotCount 0)).2, p.header.pageLsn⟩ :=
    header_writeHeader _ ⟨p.header_fits.slotCount, by dsimp only; omega, p.header_fits.pageLsn⟩
  have hcount : p.rewritten.slotCount = p.slotCount := by rw [slotCount, hheader]
  have hslot : ∀ j < p.slotCount, p.rewritten.slot j =
      (p.rewriteRecords pageSize (p.liveRecords p.slotCount 0)).1.slot j := fun j hj =>
    slot_writeHeader _ _ (by omega)
  have hmem : ∀ j, p.Live j → (j, p.slice (p.slot j).offset (p.slot j).size) ∈
      p.liveRecords p.slotCount 0 := fun j hj =>
    mem_liveRecords.mpr ⟨Nat.zero_le j, by have := hj.1; dsimp only; omega, hj.2, rfl⟩
  have hplace : ∀ j, p.Live j → (p.rewritten.slot j).size = (p.slot j).size ∧
      p.rewritten.header.freeSpaceEnd ≤ (p.rewritten.slot j).offset ∧
      (p.rewritten.slot j).offset + (p.slot j).size ≤ pageSize ∧
      p.rewritten.slice (p.rewritten.slot j).offset (p.slot j).size =
        p.slice (p.slot j).offset (p.slot j).size := by
    intro j hj
    have hstored := hrewrite.stored _ (hmem j hj)
    dsimp only at hstored
    rw [length_slice] at hstored
    obtain ⟨hsame, hlow, hhigh, hbytes⟩ := hstored
    rw [hslot j hj.1, hheader]
    refine ⟨hsame, hlow, hhigh, ?_⟩
    exact (slice_congr fun k h1 _ => get_writeHeader_of_le _ _
      (by rw [pageHeaderSize]; omega)).trans hbytes
  have hlive : ∀ j, p.rewritten.Live j ↔ p.Live j := by
    intro j
    constructor
    · rintro ⟨hlt, hsize⟩
      rw [hcount] at hlt
      refine ⟨hlt, fun hdead => hsize ?_⟩
      rw [hslot j hlt, hrewrite.others j hlt fun r hr heq => ?_, hdead]
      exact (mem_liveRecords.mp hr).2.2.1 (heq ▸ hdead)
    · intro hj
      refine ⟨by rw [hcount]; exact hj.1, ?_⟩
      rw [(hplace j hj).1]
      exact hj.2
  -- records that come one after another lie apart, whichever comes first
  let apart (r t : Nat × Bytes) : Prop :=
    Intervals.Apart (p.rewritten.slot r.1).offset r.2.length (p.rewritten.slot t.1).offset
      t.2.length
  have hsymm : Std.Symm apart := ⟨fun _ _ hrt => hrt.symm⟩
  have hapart : (p.liveRecords p.slotCount 0).Pairwise apart := by
    refine hrewrite.apart.imp_of_mem fun {r t} hr ht hrt => .inr ?_
    rw [hslot r.1 (by have := (mem_liveRecords.mp hr).2.1; omega),
      hslot t.1 (by have := (mem_liveRecords.mp ht).2.1; omega)]
    exact hrt
  have hplaced : p.rewritten.Placed := by
    constructor
    · rw [hcount]
      exact hslots
    · rw [hcount, hheader]
      exact hroom
    · rw [hheader]
      dsimp only
      omega
    · intro j hj
      obtain ⟨hsame, hlow, hhigh, -⟩ := hplace j ((hlive j).mp hj)
      rw [hsame]
      exact ⟨hlow, hhigh⟩
    · intro i j hi hj hne
      have hi' := (hlive i).mp hi
      have hj' := (hlive j).mp hj
      have hij := hapart.forall (hmem i hi') (hmem j hj') fun heq => hne (congrArg Prod.fst heq)
      simp only [apart, length_slice] at hij
      rwa [(hplace i hi').1, (hplace j hj').1]
  refine ⟨hplaced, hcount, fun i => h.read_congr hplaced (hlive i) fun hi => ?_⟩
  rw [(hplace i hi).1]
  exact (hplace i hi).2.2.2

/-- `compact` keeps every record in its slot. -/
theorem Placed.compact {p : Page} (h : p.Placed) :
    p.compact.Placed ∧ p.compact.slotCount = p.slotCount ∧ ∀ i, p.compact.read i = p.read i := by
  rcases p.compact_eq with heq | heq
  · rw [heq]
    exact ⟨h, rfl, fun _ => rfl⟩
  · rw [heq]
    exact h.rewritten

end Page

end ScratchDb
