import ScratchDb.Indexes.TreeLevels

/-!
# Reloading an index

What the next opening of an index file finds. The entries come back as they
were, whatever the pages of earlier trees left behind in the file, if `load`
accepts the header: it refuses a height of 0, which is also what the 16 bits of
the height make of 65536 levels. A tree gets as many when each round over a
level finds room for one page only.
-/

namespace ScratchDb

namespace IndexFile

/-! ## The size of the tree -/

/-- The tree of these entries has so many levels, and so many pages behind the header. -/
def TreeOf (entries : List IndexEntry) (levels pages : Nat) : Prop :=
  Packing.Tower separatorsFit (leafKeyLengths entries) levels pages

theorem length_of_round {s t : Levels} (h : s.round = some t) (hsep : Separable s.level) :
    t.nextPageId = s.nextPageId + t.level.length ∧ t.treeHeight = u16 (s.treeHeight + 1) := by
  obtain ⟨t', ht', -, hkeys⟩ := hsep.round
  rw [h] at ht'
  cases ht'
  have hgroups := congrArg List.length (firsts_keyLengths s.level)
  rw [List.length_map, ← hkeys, keyLengths, List.length_map] at hgroups
  rw [Levels.round, Option.bind_eq_bind] at h
  obtain ⟨written, -, h⟩ := Option.bind_eq_some_iff.mp h
  cases h
  exact ⟨by dsimp only at hgroups ⊢; rw [hgroups], rfl⟩

/-- The loop over the levels counts the levels in 16 bits, and the pages. -/
theorem tower_of_writeLevels {fuel : Nat} {s t : Levels} (hsep : Separable s.level)
    (hheight : s.treeHeight < 2 ^ 16) (h : writeLevels fuel s = some t) :
    ∃ n pages, Packing.Tower separatorsFit (keyLengths s.level) (n + 1) pages ∧
      t.nextPageId + s.level.length = s.nextPageId + pages ∧
      t.treeHeight = (s.treeHeight + n) % 2 ^ 16 := by
  have hlength : ∀ level : List PageSummary, (keyLengths level).length = level.length :=
    fun level => List.length_map _
  induction fuel generalizing s with
  | zero => cases h
  | succ fuel ih =>
    rw [writeLevels_succ] at h
    split at h
    · rename_i hshort
      cases h
      refine ⟨0, _, .top (by rw [hlength]; exact hshort), by rw [hlength], ?_⟩
      rw [Nat.add_zero, Nat.mod_eq_of_lt hheight]
    · rename_i hlong
      obtain ⟨u, hround, husep, hkeys⟩ := hsep.round
      obtain ⟨hnext, hup⟩ := length_of_round hround hsep
      rw [hround, Option.bind_some] at h
      obtain ⟨n, pages, habove, hpages, htop⟩ := ih husep (by
        rw [hup]
        exact Nat.mod_lt _ (Nat.two_pow_pos 16)) h
      rw [hkeys] at habove
      refine ⟨n + 1, _, .level (by rw [hlength]; omega) habove, ?_, ?_⟩
      · rw [hlength]
        omega
      · rw [htop, hup, u16, Nat.mod_add_mod, Nat.add_assoc, Nat.add_comm 1 n]

/-- The page count and the height of a file that was written. -/
theorem treeOf_of_writePages {fuel : Nat} {f g : IndexFile} (h : writePages fuel f = some g) :
    ∃ levels pages, TreeOf f.entries levels pages ∧ g.pageCount = 1 + pages ∧
      g.treeHeight = levels % 2 ^ 16 := by
  obtain ⟨-, -, pages', level, s, root, hwrite, hlevels, -, -, hcount, hheight, -⟩ :=
    writePages_eq_some h
  obtain ⟨pages'', level', hwrite', hkeys, hsep⟩ := leaves_written f
  rw [hwrite] at hwrite'
  cases hwrite'
  obtain ⟨n, pages, htower, hpages, htop⟩ := tower_of_writeLevels
    (s := ⟨pages', level, (splitLeafEntries f.entries).length + 1, 1⟩) hsep (by dsimp only; omega)
    hlevels
  have hlength : level.length = (splitLeafEntries f.entries).length := by
    have hlength := congrArg List.length hkeys
    rwa [keyLengths, leafKeyLengths, List.length_map, List.length_map] at hlength
  dsimp only at htower hpages htop
  rw [hkeys] at htower
  refine ⟨n + 1, pages, htower, by omega, ?_⟩
  rw [hheight, htop, Nat.add_comm 1 n]

/-- The entries have a tree exactly if `write_pages` returns. -/
theorem returns_of_treeOf {f : IndexFile} {levels pages : Nat}
    (hleaves : splitLeafEntries f.entries ≠ []) (h : TreeOf f.entries levels pages) :
    ∃ fuel g, writePages fuel f = some g := by
  have hfits : f.entries.all entryFitsEmptyLeaf = true := by
    by_contra hnot
    exact hleaves (by rw [splitLeafEntries, if_neg hnot])
  exact (writePages_iff hfits).mpr h.exists_iterate

/-! ## Runs -/

/-- The page count is that of the tree of the entries. -/
def Counted (f : IndexFile) : Prop :=
  ∃ levels pages, TreeOf f.entries levels pages ∧ f.pageCount = 1 + pages

theorem counted_of_writePages {fuel : Nat} {f g : IndexFile} (h : writePages fuel f = some g) :
    g.Counted := by
  obtain ⟨levels, pages, htree, hcount, -⟩ := treeOf_of_writePages h
  rw [← (writePages_eq_some h).2.1] at htree
  exact ⟨levels, pages, htree, hcount⟩

theorem counted_of_run {fuel : Nat} {f g : IndexFile} {op : IndexOp} {answer : Bool}
    (hw : f.Written) (hf : f.Numbered) (hc : f.Counted) (h : f.run fuel op = some (answer, g)) :
    g.Counted := by
  have hwritten : ∀ {f' : IndexFile},
      (writePages fuel f').map (fun f => (true, f)) = some (answer, g) → g.Counted := by
    intro f' hmap
    obtain ⟨g', hwrite, heq⟩ := Option.map_eq_some_iff.mp hmap
    cases heq
    exact counted_of_writePages hwrite
  cases op with
  | insert entry unique =>
    rw [IndexFile.run, insert] at h
    split at h
    · cases h
      exact hc
    · split at h
      · cases h
        exact hc
      · split at h
        · cases h
          exact hc
        · exact hwritten h
  | remove entry =>
    rw [IndexFile.run, remove] at h
    split at h
    · cases h
      exact hc
    · exact hwritten h
  | reset => exact hwritten h
  | close => exact hwritten h
  | reopen =>
    rw [IndexFile.run, reopen] at h
    obtain ⟨g', hload, heq⟩ := Option.map_eq_some_iff.mp h
    cases heq
    rw [load_eq_of_written hw hf hload]
    exact hc

theorem counted_of_runs {log : List (IndexOp × Bool)} {f : IndexFile} (h : Runs Numbered log f) :
    f.Counted := by
  induction h with
  | opened h _ =>
    rw [load] at h
    simp only [readUint_zero, if_true] at h
    exact counted_of_writePages h
  | step hrun h _ ih => exact counted_of_run (lists_of_runs hrun).written hrun.numbered ih h

/-! ## Loading -/

theorem loadEntries_succeeds {pages : Nat → Page} {pageCount : Nat} {level : List PageSummary}
    {leaves : List (List IndexEntry)} (hchain : LeafChain pages level leaves)
    (hids : ∀ s ∈ level, s.pageId < pageCount) (hsmall : pageCount < 2 ^ 32)
    (acc : List IndexEntry) :
    ∃ es, loadEntries pages pageCount (level.length + 1) (nextOf level) acc = some es := by
  induction level generalizing leaves acc with
  | nil => exact ⟨acc, by rw [loadEntries, nextOf_nil, if_pos rfl]⟩
  | cons s level ih =>
    obtain ⟨leaf, rest, rfl, -, hleaf, hrest⟩ := LeafChain.cons_iff.mp hchain
    have hs : s.pageId < pageCount := hids s List.mem_cons_self
    have hno : noPage = 2 ^ 32 - 1 := rfl
    obtain ⟨es, hes⟩ := ih hrest (fun c hc => hids c (List.mem_cons_of_mem _ hc)) (acc ++ leaf)
    refine ⟨es, ?_⟩
    rw [List.length_cons, loadEntries, nextOf_cons, if_neg (by omega), if_neg (by omega)]
    simp only [hleaf.magic, hleaf.pageType, ne_eq, not_true_eq_false, if_false, hleaf.entries,
      mapM_id_map_some, hleaf.next, Option.bind_eq_bind, Option.bind_some]
    exact hes

theorem Written.root_lt {f : IndexFile} (hw : f.Written) : f.rootPageId < f.pageCount := by
  obtain ⟨level, n, -, -, hids, -, hlayers⟩ := hw.tree
  refine hlayers.root_of (Q := fun p => p < f.pageCount) hids fun p c hp => ?_
  rw [innerNode] at hp
  split at hp
  · cases hp
  · rename_i hgo
    rw [not_or, not_or, not_or] at hgo
    exact not_le.mp hgo.2.2.1

theorem Written.pageCount_ge {f : IndexFile} (hw : f.Written) : 2 ≤ f.pageCount := by
  obtain ⟨level, n, hchain, -, -, hroom, -⟩ := hw.tree
  cases level with
  | nil =>
    cases hleaves : splitLeafEntries f.entries with
    | nil => exact absurd hleaves hw.leaves
    | cons leaf leaves =>
      rw [hleaves] at hchain
      exact hchain.elim
  | cons s level =>
    rw [List.length_cons] at hroom
    omega

/-- A file that was written is loaded exactly if its height is not 0. -/
theorem Written.loads_iff {f : IndexFile} (hw : f.Written) (hsmall : f.Numbered) :
    (∃ fuel g, load fuel f.pages = some g) ↔ f.treeHeight ≠ 0 := by
  have hmagic : ¬indexMagic = 0 := by decide
  have hversion : (f.pages 0).readUint 5 2 = indexVersion := hw.header.version
  constructor
  · rintro ⟨fuel, g, hload⟩ hzero
    simp only [load, hw.header.magic, hmagic, if_false, hw.header.pageType, hversion,
      hw.header.root, hw.header.count, hw.header.height, ne_eq, not_true_eq_false, or_self, hzero,
      or_true, if_true] at hload
    cases hload
  · intro hheight
    obtain ⟨level, n, hchain, hfirst, hids, -, -⟩ := hw.tree
    have hroot := hw.root_lt
    have hcount := hw.pageCount_ge
    have hno : noPage = 2 ^ 32 - 1 := rfl
    rw [Numbered] at hsmall
    obtain ⟨es, hes⟩ := loadEntries_succeeds hchain hids hsmall []
    rw [hfirst] at hes
    refine ⟨level.length + 1, ?_⟩
    simp only [load, hw.header.magic, hmagic, if_false, hw.header.pageType, hversion,
      hw.header.root, hw.header.count, hw.header.height, ne_eq, not_true_eq_false, or_self]
    rw [if_neg (by omega), hes]
    exact ⟨_, rfl⟩

/-! ## Closing and opening again -/

/-- A unique insert of a key that is present changes nothing. -/
theorem insert_of_key_present {f : IndexFile} {fuel : Nat} {e entry : IndexEntry}
    (hsorted : Sorted f.entries) (he : e ∈ f.entries) (hkey : e.key = entry.key) :
    f.insert fuel entry true = some (false, f) := by
  have hle : ∀ {a : IndexEntry}, a.key = entry.key → ¬ a < lowestEntry entry.key := by
    intro a ha hlt
    rcases IndexEntry.lt_iff.mp hlt with h | ⟨-, h | ⟨-, h⟩⟩
    · rw [ha] at h
      exact lt_irrefl _ h
    · exact Nat.not_lt_zero _ h
    · exact Nat.not_lt_zero _ h
  have hsplit := beforeBound_append_lowerBound f.entries (lowestEntry entry.key)
  have hmem : e ∈ lowerBound f.entries (lowestEntry entry.key) := by
    rw [← hsplit, List.mem_append] at he
    exact he.resolve_left fun hbefore => hle hkey (lt_of_mem_beforeBound hbefore)
  -- the bound meets the first entry of the key
  have hfound : (lowerBound f.entries (lowestEntry entry.key)).head?.any
      (fun e => e.key = entry.key) = true := by
    cases hbound : lowerBound f.entries (lowestEntry entry.key) with
    | nil =>
      rw [hbound] at hmem
      cases hmem
    | cons first rest =>
      have hge : lowestEntry entry.key ≤ first :=
        le_of_mem_lowerBound hsorted (by rw [hbound]; exact List.mem_cons_self)
      have hfirst : first.key ≤ entry.key := by
        rw [hbound] at hmem
        rcases List.mem_cons.mp hmem with rfl | hlater
        · exact le_of_eq hkey
        · have hpairs : Sorted (first :: rest) := by
            rw [← hbound]
            exact hsorted.sublist (List.dropWhile_sublist _)
          rw [← hkey]
          exact IndexEntry.key_le_of_lt ((List.pairwise_cons.mp hpairs).1 e hlater)
      have hlast : entry.key ≤ first.key := by
        rcases lt_or_eq_of_le hge with hlt | heq
        · have hkeys := IndexEntry.key_le_of_lt hlt
          exact hkeys
        · rw [← heq]
          rfl
      exact decide_eq_true (le_antisymm hfirst hlast)
  rw [insert]
  split
  · rfl
  · rw [hfound, Bool.and_self, if_pos rfl]

/-- The entries are strictly increasing, a unique insert refuses a key that is present, and closing
the file and opening it again gives the same entries. -/
structure Reloads (f : IndexFile) : Prop where
  increasing : f.entries.Pairwise fun a b => a.less b = true
  unique : ∀ fuel entry, (∃ e ∈ f.entries, e.key = entry.key) →
    f.insert fuel entry true = some (false, f)
  closes : ∃ fuel g, f.close fuel = some (true, g)
  opens : ∀ fuel g, f.close fuel = some (true, g) →
    (∃ fuel' h, load fuel' g.pages = some h) ∧
      ∀ fuel' h, load fuel' g.pages = some h → h.entries = f.entries

/-- The file that closing leaves behind. -/
theorem closed_of_close {log : List (IndexOp × Bool)} {f g : IndexFile} {fuel levels pages : Nat}
    (h : Runs Numbered log f) (htree : TreeOf f.entries levels pages)
    (hclose : f.close fuel = some (true, g)) :
    g.Written ∧ g.Numbered ∧ g.entries = f.entries ∧ g.treeHeight = levels % 2 ^ 16 := by
  obtain ⟨levels', pages', hbefore, hcount⟩ := counted_of_runs h
  obtain ⟨rfl, rfl⟩ := htree.unique hbefore
  obtain ⟨g', hwrite, heq⟩ := Option.map_eq_some_iff.mp hclose
  cases heq
  obtain ⟨levels', pages', hafter, hcount', hheight⟩ := treeOf_of_writePages hwrite
  obtain ⟨rfl, rfl⟩ := htree.unique hafter
  have hsmall : g.Numbered := by
    have hnumbered := h.numbered
    rw [Numbered] at hnumbered ⊢
    omega
  exact ⟨written_of_writePages hwrite (lists_of_runs h).written.sorted hsmall, hsmall,
    (writePages_eq_some hwrite).2.1, hheight⟩

/-- In a run through files of fewer than `2 ^ 32` pages, an index reloads exactly if the number of
its levels is no multiple of `2 ^ 16`. -/
theorem reloads_iff {log : List (IndexOp × Bool)} {f : IndexFile} (h : Runs Numbered log f) :
    Reloads f ↔ ∀ levels pages, TreeOf f.entries levels pages → ¬ 2 ^ 16 ∣ levels := by
  have hlists := lists_of_runs h
  have hsorted := hlists.written.sorted
  obtain ⟨levels, pages, htree, -⟩ := counted_of_runs h
  have hcloses : ∃ fuel g, f.close fuel = some (true, g) := by
    obtain ⟨fuel, g, hwrite⟩ := returns_of_treeOf hlists.written.leaves htree
    exact ⟨fuel, g, by rw [close, hwrite]; rfl⟩
  constructor
  · intro hreloads levels' pages' htree' hdvd
    obtain ⟨rfl, rfl⟩ := htree.unique htree'
    obtain ⟨fuel, g, hclose⟩ := hcloses
    obtain ⟨hw, hsmall, -, hheight⟩ := closed_of_close h htree hclose
    refine (hw.loads_iff hsmall).mp (hreloads.opens fuel g hclose).1 ?_
    rw [hheight, Nat.mod_eq_zero_of_dvd hdvd]
  · intro hlevels
    refine ⟨?_, ?_, hcloses, ?_⟩
    · exact hsorted.imp fun hab => IndexEntry.less_iff.mpr hab
    · rintro fuel entry ⟨e, he, hkey⟩
      exact insert_of_key_present hsorted he hkey
    · intro fuel g hclose
      obtain ⟨hw, hsmall, hentries, hheight⟩ := closed_of_close h htree hclose
      constructor
      · refine (hw.loads_iff hsmall).mpr fun hzero => hlevels levels pages htree ?_
        exact Nat.dvd_of_mod_eq_zero (hheight.symm.trans hzero)
      · intro fuel' f' hload
        rw [load_eq_of_written hw hsmall hload, hentries]

/-- Two entries in two leaves under a root. -/
theorem reloads_wide : ∃ f, Runs Numbered wideLog f ∧ Reloads f := by
  obtain ⟨f, hruns, hentries⟩ := runs_wideLog
  refine ⟨f, hruns, (reloads_iff hruns).mpr fun levels pages htree hdvd => ?_⟩
  have hlengths : leafKeyLengths f.entries = [2035, 2035] := by
    rw [leafKeyLengths, hentries, splitLeafEntries_wide]
    simp [firstKey, wideEntry, length_wideKey]
  have htwo : Packing.Tower separatorsFit [2035, 2035] 2 3 :=
    .level (by decide) (.top (by decide))
  rw [TreeOf, hlengths] at htree
  obtain ⟨rfl, -⟩ := htree.unique htwo
  omega

/-! ## A tree of 65536 levels -/

/-- An entry without a key, which shares an inner page with any other. -/
def shortEntry : IndexEntry := lowestEntry []

/-- Entries of the longest key that fits a leaf. -/
def tallEntry (i : Nat) : IndexEntry :=
  ⟨List.replicate 4076 0, ⟨i % 2 ^ 32, 0⟩, Nat.mod_lt _ (Nat.two_pow_pos 32), Nat.two_pow_pos 16⟩

def tallEntries (n : Nat) : List IndexEntry := shortEntry :: (List.range n).map tallEntry

def tallLog (n : Nat) : List (IndexOp × Bool) :=
  (tallEntries n).map fun e => (.insert e false, true)

theorem length_tallEntry (i : Nat) : (tallEntry i).key.length = 4076 := List.length_replicate

theorem tallEntries_succ (n : Nat) : tallEntries (n + 1) = tallEntries n ++ [tallEntry n] := by
  rw [tallEntries, List.range_succ, List.map_append]
  rfl

theorem fits_tallEntry (i : Nat) : entryFitsEmptyLeaf (tallEntry i) = true := by
  simp [entryFitsEmptyLeaf, length_tallEntry, uint16Max, leafHeaderSize, entryHeaderSize, pageSize]

theorem fits_tallEntries (n : Nat) : (tallEntries n).all entryFitsEmptyLeaf = true := by
  refine List.all_eq_true.mpr fun e he => ?_
  rcases List.mem_cons.mp he with rfl | he
  · decide
  · obtain ⟨i, -, rfl⟩ := List.mem_map.mp he
    exact fits_tallEntry i

/-- An entry above all others is below the next. -/
theorem lt_tallEntry {n : Nat} (hn : n < 2 ^ 16) : ∀ e ∈ tallEntries n, e < tallEntry n := by
  intro e he
  rcases List.mem_cons.mp he with rfl | he
  · exact IndexEntry.lt_iff.mpr (.inl (List.nil_lt_cons _ _))
  · obtain ⟨i, hi, rfl⟩ := List.mem_map.mp he
    have hi := List.mem_range.mp hi
    have hpage : ∀ k, (tallEntry k).recordId.pageId = k % 2 ^ 32 := fun _ => rfl
    refine IndexEntry.lt_iff.mpr (.inr ⟨rfl, .inl ?_⟩)
    rw [hpage, hpage, Nat.mod_eq_of_lt (by omega), Nat.mod_eq_of_lt (by omega)]
    exact hi

/-- Each entry has a leaf of its own. -/
theorem leafKeyLengths_tallEntries (n : Nat) :
    leafKeyLengths (tallEntries n) = 0 :: List.replicate n 4076 := by
  have halone : ∀ a i, decide (encodedSize [a, tallEntry i] ≤ pageSize) = false := by
    intro a i
    have h1 : uint16Max = 65535 := rfl
    have h2 : leafHeaderSize = 12 := rfl
    have h3 : entryHeaderSize = 8 := rfl
    have h4 : pageSize = 4096 := rfl
    have h5 := length_tallEntry i
    rw [decide_eq_false_iff_not]
    simp only [encodedSize, List.map_cons, List.map_nil, List.sum_cons, List.sum_nil]
    split <;> omega
  have hcrowded : Packing.Crowded (fun leaf => decide (encodedSize leaf ≤ pageSize))
      (tallEntries n) := by
    refine List.Pairwise.isChain (List.pairwise_cons.mpr ⟨?_, ?_⟩)
    · intro b hb
      obtain ⟨i, -, rfl⟩ := List.mem_map.mp hb
      exact halone shortEntry i
    · rw [List.pairwise_map]
      exact List.pairwise_of_forall fun i j => halone (tallEntry i) j
  have hpack : splitLeafEntries (tallEntries n) = (tallEntries n).map fun e => [e] := by
    rw [splitLeafEntries, if_pos (fits_tallEntries n), Packing.pack, tallEntries, Packing.packFrom,
      List.nil_append, if_pos (by decide)]
    exact Packing.packFrom_of_crowded hcrowded
  rw [leafKeyLengths, hpack, List.map_map, tallEntries, List.map_cons, List.map_map]
  refine congrArg (0 :: ·) (List.eq_replicate_iff.mpr ⟨by simp, fun k hk => ?_⟩)
  obtain ⟨i, -, rfl⟩ := List.mem_map.mp hk
  exact length_tallEntry i

/-- The first leaf takes one neighbour in each round. -/
theorem treeOf_tallEntries (n : Nat) :
    ∃ pages, TreeOf (tallEntries n) (n + 1) pages ∧ 2 * pages = (n + 1) * (n + 2) := by
  obtain ⟨pages, htower, hsum⟩ :=
    @Packing.tower_cons_replicate _ separatorsFit 0 4076 (by decide) (by decide) (by decide) n
  refine ⟨pages, ?_, hsum⟩
  rw [TreeOf, leafKeyLengths_tallEntries]
  exact htower

/-- An entry above all others, with which the entries are again tall. -/
theorem runs_insert_tall {log : List (IndexOp × Bool)} {f : IndexFile} {a : IndexEntry} {n : Nat}
    (hn : n < 2 ^ 16) (hruns : Runs Numbered log f) (hentries : f.entries ++ [a] = tallEntries n)
    (habove : ∀ e ∈ f.entries, e < a) :
    ∃ g, Runs Numbered (log ++ [(.insert a false, true)]) g ∧ g.entries = tallEntries n := by
  obtain ⟨pages, htree, hsum⟩ := treeOf_tallEntries n
  have hleaves : splitLeafEntries (f.entries ++ [a]) ≠ [] := by
    intro hnil
    have hlengths := leafKeyLengths_tallEntries n
    rw [leafKeyLengths, ← hentries, hnil] at hlengths
    cases hlengths
  have hfits := fits_tallEntries n
  rw [← hentries] at htree hfits
  obtain ⟨fuel, g, hwrite⟩ :=
    @returns_of_treeOf { f with entries := f.entries ++ [a] } _ _ hleaves htree
  have hsame : g.entries = tallEntries n := ((writePages_eq_some hwrite).2.1).trans hentries
  have hentry : entryFitsEmptyLeaf a = true := List.all_eq_true.mp hfits a (by simp)
  refine ⟨g, hruns.step (run_insert_above habove hentry hwrite) ?_, hsame⟩
  -- at most 2^16 levels of at most 2^16 pages
  obtain ⟨levels, pages', htree', hcount, -⟩ := treeOf_of_writePages hwrite
  obtain ⟨-, rfl⟩ := htree.unique htree'
  have hle : (n + 1) * (n + 2) ≤ 2 ^ 16 * (2 ^ 16 + 1) := Nat.mul_le_mul (by omega) (by omega)
  rw [Numbered]
  omega

/-- The entries are inserted one after the other. -/
theorem runs_tallLog {n : Nat} (hn : n < 2 ^ 16) :
    ∃ f, Runs Numbered (tallLog n) f ∧ f.entries = tallEntries n := by
  induction n with
  | zero =>
    obtain ⟨f, hopened, hempty⟩ := runs_opened
    refine runs_insert_tall hn hopened (by rw [hempty]; rfl) fun e he => ?_
    rw [hempty] at he
    cases he
  | succ n ih =>
    obtain ⟨f, hruns, hentries⟩ := ih (by omega)
    have hlog : tallLog (n + 1) = tallLog n ++ [(.insert (tallEntry n) false, true)] := by
      rw [tallLog, tallEntries_succ, List.map_append]
      rfl
    rw [hlog]
    refine runs_insert_tall hn hruns (by rw [hentries, tallEntries_succ]) fun e he => ?_
    rw [hentries] at he
    exact lt_tallEntry (by omega) e he

/-- The height of 65536 levels is written as 0, and the file cannot be opened again. -/
theorem tall_index_lost : ¬ ∀ (log : List (IndexOp × Bool)) (f : IndexFile),
    Runs (fun _ => True) log f → Reloads f := by
  intro h
  obtain ⟨f, hruns, hentries⟩ := @runs_tallLog 65535 (by decide)
  have hreloads := h _ f (hruns.mono fun _ _ => trivial)
  obtain ⟨pages, htree, hsum⟩ := treeOf_tallEntries 65535
  obtain ⟨fuel, g, hclose⟩ := hreloads.closes
  obtain ⟨hw, hsmall, -, hheight⟩ := closed_of_close hruns (by rw [hentries]; exact htree) hclose
  exact (hw.loads_iff hsmall).mp (hreloads.opens fuel g hclose).1 hheight

end IndexFile

end ScratchDb
