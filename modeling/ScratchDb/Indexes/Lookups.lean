import Mathlib.Data.List.TakeWhile
import ScratchDb.Indexes.Searches

/-!
# Lookups

A run of operations on an index file keeps a set of entries. `find` and
`find_range` give exactly the entries of that set that they are asked for, in
order, except where the entries of the key they start at are spread over
several leaves: the descent ends at the last of these leaves, and the entries
in the leaves before it are not seen.
-/

namespace ScratchDb

open SearchTree

/-! ## Runs -/

/-- What an operation with this answer does to the set of the stored entries. -/
def IndexOp.effect (s : Set IndexEntry) : IndexOp → Bool → Set IndexEntry
  | .insert entry _, true => s ∪ {entry}
  | .insert _ _, false => s
  | .remove entry, _ => s \ {entry}
  | .reset, _ => ∅
  | .close, _ => s
  | .reopen, _ => s

namespace IndexFile

/-- The entries that are stored after these operations with these answers. -/
def contents (log : List (IndexOp × Bool)) : Set IndexEntry :=
  log.foldl (fun s a => a.1.effect s a.2) ∅

/-- A run of operations that return, on a new file, through files that are `allowed`. -/
inductive Runs (allowed : IndexFile → Prop) : List (IndexOp × Bool) → IndexFile → Prop
  | opened {fuel : Nat} {f : IndexFile} (h : load fuel (fun _ => Page.zero) = some f)
      (hallowed : allowed f) : Runs allowed [] f
  | step {log : List (IndexOp × Bool)} {f g : IndexFile} {op : IndexOp} {answer : Bool}
      {fuel : Nat} (hrun : Runs allowed log f) (h : f.run fuel op = some (answer, g))
      (hallowed : allowed g) : Runs allowed (log ++ [(op, answer)]) g

/-- The pages can be numbered with `uint32_t`. -/
def Numbered (f : IndexFile) : Prop := f.pageCount < 2 ^ 32

@[simp] theorem contents_concat (log : List (IndexOp × Bool)) (op : IndexOp) (answer : Bool) :
    contents (log ++ [(op, answer)]) = op.effect (contents log) answer := by
  simp [contents]

/-- The entries in memory list a set, and the file holds them. -/
structure Lists (f : IndexFile) (s : Set IndexEntry) : Prop where
  written : f.Written
  mem : ∀ e, e ∈ f.entries ↔ e ∈ s

theorem Lists.of_writePages {fuel : Nat} {f g : IndexFile} {s : Set IndexEntry}
    (h : writePages fuel f = some g) (hsmall : g.Numbered) (hsorted : Sorted f.entries)
    (hmem : ∀ e, e ∈ f.entries ↔ e ∈ s) : g.Lists s := by
  refine ⟨written_of_writePages h hsorted hsmall, fun e => ?_⟩
  rw [(writePages_eq_some h).2.1]
  exact hmem e

theorem lists_of_insert {fuel : Nat} {f g : IndexFile} {s : Set IndexEntry} {entry : IndexEntry}
    {unique answer : Bool} (hl : f.Lists s) (h : f.insert fuel entry unique = some (answer, g))
    (hsmall : g.Numbered) : g.Lists ((IndexOp.insert entry unique).effect s answer) := by
  rw [insert] at h
  split at h
  · obtain ⟨rfl, rfl⟩ := Prod.mk.inj (Option.some.inj h)
    exact hl
  split at h
  · obtain ⟨rfl, rfl⟩ := Prod.mk.inj (Option.some.inj h)
    exact hl
  split at h
  · rename_i hhead
    obtain ⟨rfl, rfl⟩ := Prod.mk.inj (Option.some.inj h)
    -- the entry is stored already
    have hmem : entry ∈ s := (hl.mem entry).mp ((head?_lowerBound hl.written.sorted).mp hhead)
    rw [IndexOp.effect, Set.union_eq_self_of_subset_right (Set.singleton_subset_iff.mpr hmem)]
    exact hl
  · rename_i hhead
    rw [Option.map_eq_some_iff] at h
    obtain ⟨g', hwrite, heq⟩ := h
    obtain ⟨rfl, rfl⟩ := Prod.mk.inj heq
    have hnew : entry ∉ f.entries := fun hmem =>
      hhead ((head?_lowerBound hl.written.sorted).mpr hmem)
    refine .of_writePages hwrite hsmall (sorted_insertEntry hl.written.sorted hnew) fun e => ?_
    change e ∈ insertEntry f.entries entry ↔ _
    rw [mem_insertEntry, hl.mem, or_comm]
    rfl

theorem lists_of_remove {fuel : Nat} {f g : IndexFile} {s : Set IndexEntry} {entry : IndexEntry}
    {answer : Bool} (hl : f.Lists s) (h : f.remove fuel entry = some (answer, g))
    (hsmall : g.Numbered) : g.Lists (s \ {entry}) := by
  rw [remove] at h
  split at h
  · rename_i hhead
    obtain ⟨rfl, rfl⟩ := Prod.mk.inj (Option.some.inj h)
    have hnone : entry ∉ s := fun hmem =>
      hhead ((head?_lowerBound hl.written.sorted).mpr ((hl.mem entry).mpr hmem))
    rw [Set.sdiff_singleton_eq_self hnone]
    exact hl
  · rename_i hhead
    rw [Option.map_eq_some_iff] at h
    obtain ⟨g', hwrite, heq⟩ := h
    obtain ⟨rfl, rfl⟩ := Prod.mk.inj heq
    have hmem : entry ∈ f.entries := (head?_lowerBound hl.written.sorted).mp (not_not.mp hhead)
    refine .of_writePages hwrite hsmall (sorted_eraseEntry hl.written.sorted) fun e => ?_
    change e ∈ eraseEntry f.entries entry ↔ _
    rw [mem_eraseEntry hl.written.sorted hmem, hl.mem]
    rfl

/-- One operation, with the set of the stored entries. -/
theorem Lists.run {fuel : Nat} {f g : IndexFile} {s : Set IndexEntry} {op : IndexOp} {answer : Bool}
    (hl : f.Lists s) (h : f.run fuel op = some (answer, g)) (hf : f.Numbered) (hg : g.Numbered) :
    g.Lists (op.effect s answer) := by
  cases op with
  | insert entry unique => exact lists_of_insert hl h hg
  | remove entry => exact lists_of_remove hl h hg
  | reset =>
    rw [IndexFile.run, reset, Option.map_eq_some_iff] at h
    obtain ⟨g', hwrite, heq⟩ := h
    obtain ⟨rfl, rfl⟩ := Prod.mk.inj heq
    exact .of_writePages hwrite hg .nil fun e => by simp [IndexOp.effect]
  | close =>
    rw [IndexFile.run, close, Option.map_eq_some_iff] at h
    obtain ⟨g', hwrite, heq⟩ := h
    obtain ⟨rfl, rfl⟩ := Prod.mk.inj heq
    exact .of_writePages hwrite hg hl.written.sorted hl.mem
  | reopen =>
    rw [IndexFile.run, reopen, Option.map_eq_some_iff] at h
    obtain ⟨g', hload, heq⟩ := h
    obtain ⟨rfl, rfl⟩ := Prod.mk.inj heq
    rw [load_eq_of_written hl.written hf hload]
    exact hl

theorem readUint_zero : Page.zero.readUint 0 4 = 0 := by decide

theorem Runs.numbered {log : List (IndexOp × Bool)} {f : IndexFile} (h : Runs Numbered log f) :
    f.Numbered := by
  cases h with
  | opened _ hallowed => exact hallowed
  | step _ _ hallowed => exact hallowed

theorem Runs.mono {p q : IndexFile → Prop} {log : List (IndexOp × Bool)} {f : IndexFile}
    (h : Runs p log f) (hpq : ∀ f, p f → q f) : Runs q log f := by
  induction h with
  | opened h hallowed => exact .opened h (hpq _ hallowed)
  | step _ h hallowed ih => exact ih.step h (hpq _ hallowed)

/-- After a run the file lists the entries that are stored. -/
theorem lists_of_runs {log : List (IndexOp × Bool)} {f : IndexFile} (h : Runs Numbered log f) :
    f.Lists (contents log) := by
  induction h with
  | opened h hallowed =>
    rw [load] at h
    simp only [readUint_zero, if_true] at h
    exact .of_writePages h hallowed .nil fun e => by simp [contents]
  | step hrun h hallowed ih =>
    rw [contents_concat]
    exact ih.run h hrun.numbered hallowed

/-! ## Exact lookups -/

/-- The lookup returns the record ids of these entries, in the order of keys and record ids. -/
def Exact (lookup : Nat → Option (List RecordId)) (s : Set IndexEntry) : Prop :=
  ∃ es : List IndexEntry, Sorted es ∧ (∀ e, e ∈ es ↔ e ∈ s) ∧
    ∃ n, ∀ fuel, n ≤ fuel → lookup fuel = some (es.map IndexEntry.recordId)

/-- The key lies in the range. -/
structure KeyRange.Holds (r : KeyRange) (key : Bytes) : Prop where
  lower : ∀ lower ∈ r.lowerKey, if r.includeLower then lower ≤ key else lower < key
  upper : ∀ upper ∈ r.upperKey, if r.includeUpper then key ≤ upper else key < upper

theorem KeyRange.skips_eq_false {r : KeyRange} {key : Bytes} : r.skips key = false ↔
    ∀ lower ∈ r.lowerKey, if r.includeLower then lower ≤ key else lower < key := by
  cases hlower : r.lowerKey with
  | none => simp [KeyRange.skips, hlower]
  | some lower =>
    cases hincl : r.includeLower with
    | true => simp [KeyRange.skips, hlower, hincl]
    | false =>
      simp only [KeyRange.skips, hlower, hincl, Option.any_some, Bool.not_false, Bool.true_and,
        Bool.or_eq_false_iff, decide_eq_false_iff_not, not_lt, Option.mem_some_iff, forall_eq',
        Bool.false_eq_true, if_false]
      exact ⟨fun h => lt_of_le_of_ne h.1 (Ne.symm h.2), fun h => ⟨le_of_lt h, ne_of_gt h⟩⟩

theorem KeyRange.stops_eq_false {r : KeyRange} {key : Bytes} : r.stops key = false ↔
    ∀ upper ∈ r.upperKey, if r.includeUpper then key ≤ upper else key < upper := by
  cases hupper : r.upperKey with
  | none => simp [KeyRange.stops, hupper]
  | some upper =>
    cases hincl : r.includeUpper with
    | true => simp [KeyRange.stops, hupper, hincl]
    | false =>
      simp only [KeyRange.stops, hupper, hincl, Option.any_some, Bool.not_false, Bool.true_and,
        Bool.or_eq_false_iff, decide_eq_false_iff_not, not_lt, Option.mem_some_iff, forall_eq',
        Bool.false_eq_true, if_false]
      exact ⟨fun h => lt_of_le_of_ne h.1 h.2, fun h => ⟨le_of_lt h, ne_of_lt h⟩⟩

theorem KeyRange.contains_iff {r : KeyRange} {key : Bytes} : r.contains key = true ↔ r.Holds key := by
  rw [KeyRange.contains, Bool.and_eq_true, Bool.not_eq_true', Bool.not_eq_true',
    KeyRange.skips_eq_false, KeyRange.stops_eq_false]
  exact ⟨fun h => ⟨h.1, h.2⟩, fun h => ⟨h.lower, h.upper⟩⟩

/-- A lookup that passes over the entries of `before` is exact when none of them is looked for. -/
theorem exact_iff {lookup : Nat → Option (List RecordId)} {entries before rest : List IndexEntry}
    {s : Set IndexEntry} {p : Bytes → Bool} {P : Bytes → Prop} (hP : ∀ k, p k = true ↔ P k)
    (hsorted : Sorted entries) (hmem : ∀ e, e ∈ entries ↔ e ∈ s) (hsplit : entries = before ++ rest)
    {n : Nat} (hlookup : ∀ fuel, n ≤ fuel → lookup fuel = some (found p rest)) :
    Exact lookup {e ∈ s | P e.key} ↔ ∀ e ∈ before, ¬P e.key := by
  have hasked : ∀ e, e ∈ entries.filter (fun e => p e.key) ↔ e ∈ {e ∈ s | P e.key} := by
    intro e
    rw [List.mem_filter, hmem, hP]
    rfl
  constructor
  · rintro ⟨es, hes, hmem', m, hexact⟩ e he hPe
    have heq : es = entries.filter fun e => p e.key :=
      eq_of_sorted hes (hsorted.sublist List.filter_sublist) fun e =>
        (hmem' e).trans (hasked e).symm
    have hsame := (hexact (max n m) (le_max_right n m)).symm.trans (hlookup _ (le_max_left n m))
    rw [heq, hsplit, List.filter_append, List.map_append, Option.some.injEq] at hsame
    -- the lookup has an entry less
    have hlen := congrArg List.length hsame
    have hpos : e ∈ before.filter fun e => p e.key := List.mem_filter.mpr ⟨he, (hP _).mpr hPe⟩
    have := List.length_pos_of_mem hpos
    simp only [List.length_append, List.length_map, found] at hlen
    omega
  · intro hnone
    have hbefore : before.filter (fun e => p e.key) = [] := by
      rw [List.filter_eq_nil_iff]
      exact fun e he hp => hnone e he ((hP _).mp hp)
    have hfilter : entries.filter (fun e => p e.key) = rest.filter fun e => p e.key := by
      rw [hsplit, List.filter_append, hbefore, List.nil_append]
    refine ⟨entries.filter fun e => p e.key, hsorted.sublist List.filter_sublist, hasked, n,
      fun fuel hfuel => ?_⟩
    rw [hlookup fuel hfuel, hfilter]
    rfl

theorem forall_mem_flatten {α : Type} {leaves : List (List α)} {P : α → Prop} :
    (∀ e ∈ leaves.flatten, P e) ↔ ∀ leaf ∈ leaves, ∀ e ∈ leaf, P e := by
  simp only [List.mem_flatten, forall_exists_index, and_imp]
  exact ⟨fun h leaf hleaf e he => h e leaf hleaf he, fun h e leaf hleaf he => h leaf hleaf e he⟩

namespace Lists

variable {f : IndexFile} {s : Set IndexEntry}

/-- `find` is exact exactly when one leaf at most has the key. -/
theorem find_exact_iff (hl : f.Lists s) (hsmall : f.Numbered) (key : Bytes) :
    Exact (f.find key) {e ∈ s | e.key = key} ↔
      InOneLeaf IndexEntry.key key (splitLeafEntries f.entries) := by
  have hw := hl.written
  have hflat := hw.keysSorted
  have hentries := flatten_splitLeafEntries hw.leaves
  obtain ⟨before, cur, after, hs⟩ := hw.startsAt hsmall key
  have hlater : found (· = key) after.flatten = [] := found_eq_nil fun e he => by
    obtain ⟨leaf, hleaf, he⟩ := List.mem_flatten.mp he
    simpa using ne_of_gt (hs.later leaf hleaf e he)
  rw [hs.split] at hflat hentries
  have hsplit : f.entries = before.flatten ++ (cur :: after).flatten := by
    rw [← hentries, List.flatten_append]
  rw [hs.split, inOneLeaf_iff hflat hs.later hs.first, ← forall_mem_flatten]
  refine exact_iff (P := (· = key)) (p := (· = key)) (by simp) hw.sorted hl.mem hsplit
    (n := f.pageCount) fun fuel hfuel => ?_
  rw [hs.find_eq hw hsmall hfuel, List.flatten_cons, found_append, hlater, List.append_nil]

/-- `find_range` is exact exactly when one leaf at most has its lower key, or this key lies outside
the range. -/
theorem findRange_exact_iff (hl : f.Lists s) (hsmall : f.Numbered) (r : KeyRange) :
    Exact (f.findRange r) {e ∈ s | r.Holds e.key} ↔ ∀ lower ∈ r.lowerKey, r.Holds lower →
      InOneLeaf IndexEntry.key lower (splitLeafEntries f.entries) := by
  have hw := hl.written
  cases hlower : r.lowerKey with
  | none =>
    refine iff_of_true ?_ (by simp)
    exact (exact_iff (fun _ => KeyRange.contains_iff) hw.sorted hl.mem (List.nil_append _).symm
      fun fuel hfuel => hw.findRange_eq hlower hsmall hfuel).mpr (by simp)
  | some lower =>
    have hflat := hw.keysSorted
    have hentries := flatten_splitLeafEntries hw.leaves
    obtain ⟨before, cur, after, hs⟩ := hw.startsAt hsmall lower
    rw [hs.split] at hflat hentries
    have hsplit : f.entries = before.flatten ++ (cur :: after).flatten := by
      rw [← hentries, List.flatten_append]
    simp only [Option.mem_some_iff, forall_eq']
    rw [hs.split, inOneLeaf_iff hflat hs.later hs.first, ← forall_mem_flatten]
    refine (exact_iff (fun _ => KeyRange.contains_iff) hw.sorted hl.mem hsplit
      fun fuel hfuel => hs.findRange_eq hlower hw hsmall hfuel).trans ⟨?_, ?_⟩
    · rintro hnone hlow e he rfl
      exact hnone e he hlow
    · intro hnone e he hrange
      -- an entry of the range that is passed over has the lower key
      have hge : lower ≤ e.key := by
        have := hrange.lower lower hlower
        split at this
        · exact this
        · exact le_of_lt this
      obtain ⟨leaf, hleaf, _⟩ := List.mem_flatten.mp he
      obtain ⟨d, hd, hdle⟩ := hs.first (List.ne_nil_of_mem hleaf)
      rw [List.flatten_append] at hflat
      have hle : e.key ≤ d.key := (List.pairwise_append.mp hflat).2.2 e he d (by simp [hd])
      have heq : e.key = lower := le_antisymm (hle.trans hdle) hge
      exact hnone (heq ▸ hrange) e he heq

end Lists

/-- In a run through files of fewer than `2 ^ 32` pages, `find` is exact exactly when one leaf at
most has the key, and `find_range` exactly when one leaf at most has its lower key, or this key lies
outside the range. -/
theorem exact_iff_inOneLeaf {log : List (IndexOp × Bool)} {f : IndexFile}
    (h : Runs Numbered log f) :
    (∀ key, Exact (f.find key) {e ∈ contents log | e.key = key} ↔
      InOneLeaf IndexEntry.key key (splitLeafEntries f.entries)) ∧
    ∀ r : KeyRange, Exact (f.findRange r) {e ∈ contents log | r.Holds e.key} ↔
      ∀ lower ∈ r.lowerKey, r.Holds lower →
        InOneLeaf IndexEntry.key lower (splitLeafEntries f.entries) :=
  ⟨(lists_of_runs h).find_exact_iff h.numbered, (lists_of_runs h).findRange_exact_iff h.numbered⟩

/-! ## A key in two leaves -/

/-- A key of which a leaf has room for one entry only. -/
def wideKey : Bytes := List.replicate 2035 0

def wideEntry (slotId : Fin 2) : IndexEntry :=
  ⟨wideKey, ⟨0, slotId⟩, Nat.two_pow_pos 32, by dsimp only; omega⟩

def wideLog : List (IndexOp × Bool) :=
  [(.insert (wideEntry 0) false, true), (.insert (wideEntry 1) false, true)]

theorem length_wideKey : wideKey.length = 2035 := List.length_replicate

theorem fits_wideEntry (slotId : Fin 2) : entryFitsEmptyLeaf (wideEntry slotId) = true := by
  simp [entryFitsEmptyLeaf, wideEntry, length_wideKey, uint16Max, leafHeaderSize, entryHeaderSize,
    pageSize]

theorem wideEntry_lt : wideEntry 0 < wideEntry 1 :=
  IndexEntry.lt_iff.mpr (.inr ⟨rfl, .inr ⟨rfl, by decide⟩⟩)

/-- An entry that is above all others is put behind them. -/
theorem run_insert_above {fuel : Nat} {f g : IndexFile} {a : IndexEntry}
    (habove : ∀ e ∈ f.entries, e < a) (hentry : entryFitsEmptyLeaf a = true)
    (hwrite : writePages fuel { f with entries := f.entries ++ [a] } = some g) :
    f.run fuel (.insert a false) = some (true, g) := by
  have hbefore : beforeBound f.entries a = f.entries :=
    List.takeWhile_eq_self_iff.mpr fun e he => IndexEntry.less_iff.mpr (habove e he)
  have hbound : lowerBound f.entries a = [] :=
    List.dropWhile_eq_nil_iff.mpr fun e he => IndexEntry.less_iff.mpr (habove e he)
  have hinsert : insertEntry f.entries a = f.entries ++ [a] := by
    rw [insertEntry, hbefore, hbound]
  rw [IndexFile.run, insert]
  simp [hentry, hbound, hinsert, hwrite]

theorem insert_succeeds {f : IndexFile} {a : IndexEntry} (habove : ∀ e ∈ f.entries, e < a)
    (hfits : (f.entries ++ [a]).all entryFitsEmptyLeaf = true)
    (h : internalHeaderSize + ((splitLeafEntries (f.entries ++ [a])).map fun leaf =>
      internalChildHeaderSize + (firstKey leaf).length).sum ≤ pageSize)
    (hsmall : (splitLeafEntries (f.entries ++ [a])).length < 2 ^ 16) :
    ∃ g, f.run 2 (.insert a false) = some (true, g) ∧ g.Numbered ∧
      g.entries = f.entries ++ [a] := by
  have hentry : entryFitsEmptyLeaf a = true := List.all_eq_true.mp hfits a (by simp)
  obtain ⟨g, hwrite, hcount⟩ :=
    writePages_succeeds (f := { f with entries := f.entries ++ [a] }) hfits h
  refine ⟨g, run_insert_above habove hentry hwrite, ?_, (writePages_eq_some hwrite).2.1⟩
  rw [Numbered]
  dsimp only at hcount
  omega

/-- A new file. -/
theorem runs_opened : ∃ f, Runs Numbered [] f ∧ f.entries = [] := by
  obtain ⟨f, hopen, hcount⟩ : ∃ f, writePages 2 ⟨[], 2, 1, 1, fun _ => Page.zero⟩ = some f ∧
      f.pageCount ≤ 3 := writePages_succeeds rfl (by decide)
  refine ⟨f, .opened (?_ : load 2 _ = some f) (by rw [Numbered]; omega),
    (writePages_eq_some hopen).2.1⟩
  rw [load]
  simp only [readUint_zero, if_true, hopen]

theorem splitLeafEntries_wide :
    splitLeafEntries [wideEntry 0, wideEntry 1] = [[wideEntry 0], [wideEntry 1]] := by
  have hsize : ∀ i, (wideEntry i).key.length = 2035 := fun _ => length_wideKey
  simp [splitLeafEntries, fits_wideEntry, Packing.pack, Packing.packFrom, encodedSize, hsize,
    uint16Max, leafHeaderSize, entryHeaderSize, pageSize]

/-- Two entries of a key are inserted, and come into two leaves. -/
theorem runs_wideLog : ∃ f, Runs Numbered wideLog f ∧ f.entries = [wideEntry 0, wideEntry 1] := by
  have hsize : ∀ i, (wideEntry i).key.length = 2035 := fun _ => length_wideKey
  have hone : splitLeafEntries [wideEntry 0] = [[wideEntry 0]] := by
    simp [splitLeafEntries, fits_wideEntry, Packing.pack, Packing.packFrom, encodedSize, hsize,
      uint16Max, leafHeaderSize, entryHeaderSize, pageSize]
  obtain ⟨f, hopened, hempty⟩ := runs_opened
  obtain ⟨g, hfirst, hg, hentries⟩ := insert_succeeds (f := f) (a := wideEntry 0)
    (by simp [hempty]) (by simp [hempty, fits_wideEntry])
    (by simp [hempty, hone, firstKey, hsize, internalHeaderSize, internalChildHeaderSize, pageSize])
    (by simp [hempty, hone])
  rw [hempty, List.nil_append] at hentries
  obtain ⟨g', hsecond, hg', hentries'⟩ := insert_succeeds (f := g) (a := wideEntry 1)
    (by simp [hentries, wideEntry_lt]) (by simp [hentries, fits_wideEntry])
    (by simp [hentries, splitLeafEntries_wide, firstKey, hsize, internalHeaderSize,
      internalChildHeaderSize, pageSize])
    (by simp [hentries, splitLeafEntries_wide])
  rw [hentries] at hentries'
  exact ⟨g', (hopened.step hfirst hg).step hsecond hg', hentries'⟩

theorem not_inOneLeaf_wide :
    ¬InOneLeaf IndexEntry.key wideKey (splitLeafEntries [wideEntry 0, wideEntry 1]) := by
  rw [splitLeafEntries_wide]
  intro hone
  exact (List.pairwise_cons.mp hone).1 _ (List.mem_singleton_self _)
    ⟨⟨_, List.mem_singleton_self _, rfl⟩, _, List.mem_singleton_self _, rfl⟩

/-- Of two entries of a key in two leaves, `find` returns the second only. -/
theorem duplicate_not_found :
    ¬∀ (log : List (IndexOp × Bool)) (f : IndexFile), Runs (fun _ => True) log f →
      (∀ key, Exact (f.find key) {e ∈ contents log | e.key = key}) ∧
        ∀ r : KeyRange, Exact (f.findRange r) {e ∈ contents log | r.Holds e.key} := by
  intro h
  obtain ⟨f, hruns, hentries⟩ := runs_wideLog
  have hexact := (h wideLog f (hruns.mono fun _ _ => trivial)).1 wideKey
  rw [(lists_of_runs hruns).find_exact_iff hruns.numbered, hentries] at hexact
  exact not_inOneLeaf_wide hexact

/-- The two entries of a key that are inserted into two leaves. -/
theorem exact_iff_inOneLeaf_wide : ∃ f, Runs Numbered wideLog f ∧
    (∀ key, Exact (f.find key) {e ∈ contents wideLog | e.key = key} ↔
      InOneLeaf IndexEntry.key key (splitLeafEntries f.entries)) ∧
    ∀ r : KeyRange, Exact (f.findRange r) {e ∈ contents wideLog | r.Holds e.key} ↔
      ∀ lower ∈ r.lowerKey, r.Holds lower →
        InOneLeaf IndexEntry.key lower (splitLeafEntries f.entries) := by
  obtain ⟨f, hruns, -⟩ := runs_wideLog
  exact ⟨f, hruns, exact_iff_inOneLeaf hruns⟩

end IndexFile

end ScratchDb
