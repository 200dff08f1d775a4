import ScratchDb.Indexes.Lookups

/-!
# The levels of an index tree

When the loop of `write_pages` over the levels ends. A level is packed into
inner pages by the lengths of its separators only; a round that finds two
neighbours for one page leaves fewer nodes, any other round writes the same
level again, and so the loop never ends.
-/

namespace ScratchDb

namespace IndexFile

/-! ## Rounds -/

/-- One round of the loop over the levels. -/
def Levels.round (s : Levels) : Option Levels := do
  let groups := internalGroups s.level
  let (pages, level) ← writeGroups s.pages s.nextPageId groups
  some ⟨pages, level, s.nextPageId + groups.length, u16 (s.treeHeight + 1)⟩

theorem writeLevels_succ (fuel : Nat) (s : Levels) :
    writeLevels (fuel + 1) s =
      if s.level.length ≤ 1 then some s else s.round.bind (writeLevels fuel) := by
  rw [writeLevels, Levels.round]
  split
  · rfl
  · simp only [Option.bind_eq_bind, Option.bind_assoc, Option.bind_some]

/-- The states of the loop over the levels when `write_pages` writes the entries of `f`. -/
inductive LevelsReached (f : IndexFile) : Levels → Prop where
  | leaves {pages : Nat → Page} {level : List PageSummary} :
      writeLeaves f.pages 1 (splitLeafEntries f.entries) = some (pages, level) →
      LevelsReached f ⟨pages, level, (splitLeafEntries f.entries).length + 1, 1⟩
  | round {s t : Levels} : LevelsReached f s → 1 < s.level.length → s.round = some t →
      LevelsReached f t

/-- `write_pages` returns, and each round of its loop leaves fewer nodes than there were. -/
structure TreeBuilt (f : IndexFile) : Prop where
  returns : ∃ fuel g, writePages fuel f = some g
  fewer : ∀ s t, LevelsReached f s → 1 < s.level.length → s.round = some t →
    t.level.length < s.level.length

/-! ## Lengths of separators -/

/-- Separators of these lengths fit one inner page. -/
def separatorsFit (lengths : List Nat) : Bool :=
  internalHeaderSize + (lengths.map fun n => internalChildHeaderSize + n).sum ≤ pageSize

/-- The lengths of the separators of the leaves that hold the entries. -/
def leafKeyLengths (entries : List IndexEntry) : List Nat :=
  (splitLeafEntries entries).map fun leaf => (firstKey leaf).length

def keyLengths (level : List PageSummary) : List Nat := level.map fun s => s.firstKey.length

/-- Two separators fit one inner page exactly if their keys have 4077 bytes at most. -/
theorem separatorsFit_pair {m n : Nat} : separatorsFit [m, n] = true ↔ m + n ≤ 4077 := by
  have h1 : internalHeaderSize = 7 := rfl
  have h2 : internalChildHeaderSize = 6 := rfl
  have h3 : pageSize = 4096 := rfl
  simp only [separatorsFit, List.map_cons, List.map_nil, List.sum_cons, List.sum_nil,
    decide_eq_true_eq]
  omega

theorem fits_eq_separatorsFit (children : List PageSummary) :
    decide (internalSize children ≤ pageSize) = separatorsFit (keyLengths children) := by
  rw [internalSize, separatorsFit, keyLengths, List.map_map]
  rfl

/-- The separator of a group is that of its first child. -/
theorem map_head_filter_nonempty (groups : List (List PageSummary)) :
    ((groups.filter fun g => !g.isEmpty).map fun g =>
      ((g.head?.map PageSummary.firstKey).getD []).length) =
        (groups.map keyLengths).filterMap List.head? := by
  induction groups with
  | nil => rfl
  | cons g groups ih =>
    cases g with
    | nil => exact ih
    | cons c g => simpa [keyLengths] using ih

theorem firsts_keyLengths (level : List PageSummary) :
    ((internalGroups level).map fun g =>
      ((g.head?.map PageSummary.firstKey).getD []).length) =
        Packing.firsts separatorsFit (keyLengths level) := by
  have hfits : (fun children => decide (internalSize children ≤ pageSize)) =
      fun children => separatorsFit (children.map fun s => s.firstKey.length) :=
    funext fits_eq_separatorsFit
  rw [internalGroups, map_head_filter_nonempty, Packing.firsts, keyLengths, Packing.pack_map, hfits]
  rfl

/-! ## What a round does -/

theorem writeGroups_succeeds (pages : Nat → Page) (nextPageId : Nat)
    {groups : List (List PageSummary)} (h : ∀ g ∈ groups, internalSize g ≤ pageSize) :
    ∃ pages' level, writeGroups pages nextPageId groups = some (pages', level) ∧
      level.map PageSummary.firstKey =
        groups.map fun g => (g.head?.map PageSummary.firstKey).getD [] := by
  induction groups generalizing pages nextPageId with
  | nil => exact ⟨pages, [], rfl, rfl⟩
  | cons g groups ih =>
    obtain ⟨page, hpage⟩ : ∃ page, internalPage g = some page :=
      writeChildren_succeeds (h g (List.mem_cons_self ..))
    obtain ⟨pages', level, hrest, hkeys⟩ := ih (Function.update pages nextPageId page)
      (nextPageId + 1) fun g hg => h g (List.mem_cons_of_mem _ hg)
    refine ⟨pages', ⟨nextPageId, (g.head?.map PageSummary.firstKey).getD []⟩ :: level, ?_,
      by simp [hkeys]⟩
    rw [writeGroups, hpage]
    simp [hrest]

/-- Each separator of the level fits an inner page. -/
def Separable (level : List PageSummary) : Prop := ∀ n ∈ keyLengths level, separatorsFit [n] = true

theorem Separable.internalSize_le {level g : List PageSummary} (h : Separable level)
    (hg : g ∈ internalGroups level) : internalSize g ≤ pageSize := by
  refine of_decide_eq_true (Packing.fits_of_mem_packFrom (fun c hc => ?_) (by decide) g
    (List.mem_filter.mp hg).1)
  rw [fits_eq_separatorsFit]
  exact h _ (List.mem_map_of_mem hc)

/-- A round packs the lengths of the separators. -/
theorem Separable.round {s : Levels} (h : Separable s.level) :
    ∃ t, s.round = some t ∧ Separable t.level ∧
      keyLengths t.level = Packing.firsts separatorsFit (keyLengths s.level) := by
  obtain ⟨pages, level, hwrite, hkeys⟩ := writeGroups_succeeds s.pages s.nextPageId
    fun g hg => h.internalSize_le hg
  have hlengths : keyLengths level = Packing.firsts separatorsFit (keyLengths s.level) := by
    have hmap := congrArg (List.map List.length) hkeys
    rw [List.map_map, List.map_map] at hmap
    exact hmap.trans (firsts_keyLengths s.level)
  refine ⟨⟨pages, level, s.nextPageId + (internalGroups s.level).length,
    u16 (s.treeHeight + 1)⟩, ?_, fun n hn => ?_, hlengths⟩
  · rw [Levels.round]
    simp [hwrite]
  · rw [hlengths] at hn
    exact h n (Packing.mem_of_mem_firsts hn)

/-- The loop ends exactly if packing the separators in rounds comes down to one node. -/
theorem Separable.writeLevels_iff {s : Levels} (h : Separable s.level) :
    (∃ fuel t, writeLevels fuel s = some t) ↔
      ∃ n, ((Packing.firsts separatorsFit)^[n] (keyLengths s.level)).length ≤ 1 := by
  constructor
  · rintro ⟨fuel, t, ht⟩
    induction fuel generalizing s with
    | zero => cases ht
    | succ fuel ih =>
      rw [writeLevels_succ] at ht
      split at ht
      · rename_i hlen
        exact ⟨0, by simpa [keyLengths] using hlen⟩
      · obtain ⟨u, hround, hu, hkeys⟩ := h.round
        rw [hround, Option.bind_some] at ht
        obtain ⟨n, hn⟩ := ih hu ht
        exact ⟨n + 1, by rwa [Function.iterate_succ_apply, ← hkeys]⟩
  · rintro ⟨n, hn⟩
    induction n generalizing s with
    | zero =>
      have hlen : s.level.length ≤ 1 := by simpa [keyLengths] using hn
      exact ⟨1, s, by rw [writeLevels_succ, if_pos hlen]⟩
    | succ n ih =>
      by_cases hlen : s.level.length ≤ 1
      · exact ⟨1, s, by rw [writeLevels_succ, if_pos hlen]⟩
      · obtain ⟨u, hround, hu, hkeys⟩ := h.round
        obtain ⟨fuel, t, ht⟩ := ih hu (by rwa [hkeys, ← Function.iterate_succ_apply])
        exact ⟨fuel + 1, t, by rw [writeLevels_succ, if_neg hlen, hround, Option.bind_some, ht]⟩

theorem Separable.writeLevels_ne_nil {fuel : Nat} {s t : Levels} (h : Separable s.level)
    (hne : s.level ≠ []) (ht : writeLevels fuel s = some t) : t.level ≠ [] := by
  induction fuel generalizing s with
  | zero => cases ht
  | succ fuel ih =>
    rw [writeLevels_succ] at ht
    split at ht
    · cases ht
      exact hne
    · obtain ⟨u, hround, hu, hkeys⟩ := h.round
      rw [hround, Option.bind_some] at ht
      refine ih hu (fun hnil => ?_) ht
      rw [hnil] at hkeys
      refine Packing.firsts_ne_nil ?_ hkeys.symm
      simpa [keyLengths] using hne

/-! ## Whole files -/

/-- The first key of a leaf has room on an inner page. -/
theorem separatorsFit_firstKey {entries leaf : List IndexEntry}
    (h : leaf ∈ splitLeafEntries entries) : separatorsFit [(firstKey leaf).length] = true := by
  have h1 : leafHeaderSize = 12 := rfl
  have h2 : internalHeaderSize = 7 := rfl
  have h3 : internalChildHeaderSize = 6 := rfl
  have h4 : pageSize = 4096 := rfl
  have h5 : entryHeaderSize = 8 := rfl
  have hsize := encodedSize_le_of_mem h
  rw [separatorsFit, decide_eq_true_eq]
  cases leaf with
  | nil => decide
  | cons e leaf =>
    simp only [firstKey, List.head?_cons, Option.map_some, Option.getD_some, List.map_cons,
      List.map_nil, List.sum_cons, List.sum_nil] at hsize ⊢
    omega

theorem leaves_written (f : IndexFile) : ∃ pages level,
    writeLeaves f.pages 1 (splitLeafEntries f.entries) = some (pages, level) ∧
      keyLengths level = leafKeyLengths f.entries ∧ Separable level := by
  obtain ⟨pages, level, hwrite, hkeys⟩ := writeLeaves_succeeds f.pages 1
    fun leaf hleaf => encodedSize_le_of_mem hleaf
  have hmap := congrArg (List.map List.length) hkeys
  rw [List.map_map, List.map_map] at hmap
  have hlengths : keyLengths level = leafKeyLengths f.entries := hmap
  refine ⟨pages, level, hwrite, hlengths, fun n hn => ?_⟩
  rw [hlengths] at hn
  obtain ⟨leaf, hleaf, rfl⟩ := List.mem_map.mp hn
  exact separatorsFit_firstKey hleaf

/-- The separators of any level are those of the leaves after some rounds of packing. -/
theorem LevelsReached.separators {f : IndexFile} {s : Levels} (h : LevelsReached f s) :
    Separable s.level ∧
      ∃ n, keyLengths s.level = (Packing.firsts separatorsFit)^[n] (leafKeyLengths f.entries) := by
  induction h with
  | leaves hwrite =>
    obtain ⟨pages, level, hwrite', hkeys, hsep⟩ := leaves_written f
    rw [hwrite] at hwrite'
    cases hwrite'
    exact ⟨hsep, 0, hkeys⟩
  | round hs hlen hround ih =>
    obtain ⟨hsep, n, hn⟩ := ih
    obtain ⟨t, ht, htsep, hkeys⟩ := hsep.round
    rw [hround] at ht
    cases ht
    exact ⟨htsep, n + 1, by rw [hkeys, hn, Function.iterate_succ_apply']⟩

theorem writePages_iff {f : IndexFile} (hfits : f.entries.all entryFitsEmptyLeaf = true) :
    (∃ fuel g, writePages fuel f = some g) ↔
      ∃ n, ((Packing.firsts separatorsFit)^[n] (leafKeyLengths f.entries)).length ≤ 1 := by
  obtain ⟨pages, level, hwrite, hkeys, hsep⟩ := leaves_written f
  have hleaves : splitLeafEntries f.entries ≠ [] := by
    rw [splitLeafEntries, if_pos hfits]
    exact Packing.packFrom_ne_nil _ _ _
  have hlevels := Separable.writeLevels_iff
    (s := ⟨pages, level, (splitLeafEntries f.entries).length + 1, 1⟩) hsep
  dsimp only at hlevels
  rw [← hkeys, ← hlevels]
  constructor
  · rintro ⟨fuel, g, hg⟩
    obtain ⟨-, -, pages', level', s, -, hwrite', hs, -⟩ := writePages_eq_some hg
    rw [hwrite] at hwrite'
    cases hwrite'
    exact ⟨fuel, s, hs⟩
  · rintro ⟨fuel, s, hs⟩
    have hlevel : level ≠ [] := by
      rintro rfl
      exact hleaves (List.map_eq_nil_iff.mp hkeys.symm)
    obtain ⟨root, rest, hroot⟩ := List.exists_cons_of_ne_nil
      (Separable.writeLevels_ne_nil (s := ⟨pages, level, _, 1⟩) hsep hlevel hs)
    have hempty : (splitLeafEntries f.entries).isEmpty = false := by simpa using hleaves
    refine ⟨fuel, ⟨f.entries, s.nextPageId, root.pageId, s.treeHeight, Function.update s.pages 0
      (headerPage root.pageId s.nextPageId s.treeHeight)⟩, ?_⟩
    rw [writePages]
    simp only [hempty, Bool.false_eq_true, if_false, hwrite, Option.bind_eq_bind,
      Option.bind_some, hs, hroot, List.head?_cons]

/-- `write_pages` builds the tree exactly if no level has two nodes or more of which no two
neighbours have room on one inner page. -/
theorem treeBuilt_iff (f : IndexFile) (hfits : f.entries.all entryFitsEmptyLeaf = true) :
    TreeBuilt f ↔ ∀ n, ¬ Packing.Stuck separatorsFit
      ((Packing.firsts separatorsFit)^[n] (leafKeyLengths f.entries)) := by
  rw [← Packing.exists_iterate_le_one_iff, ← writePages_iff hfits]
  constructor
  · intro h
    exact h.returns
  · intro h
    refine ⟨h, fun s t hs hlen hround => ?_⟩
    rw [writePages_iff hfits, Packing.exists_iterate_le_one_iff] at h
    obtain ⟨hsep, n, hn⟩ := hs.separators
    obtain ⟨t', ht', -, hkeys⟩ := hsep.round
    rw [hround] at ht'
    cases ht'
    have hcount : ∀ level : List PageSummary, (keyLengths level).length = level.length :=
      fun level => List.length_map _
    have hfewer : (keyLengths t.level).length < (keyLengths s.level).length := by
      rw [hkeys]
      refine Packing.length_firsts_lt fun hcrowded => h n ?_
      rw [← hn]
      exact ⟨by rw [hcount]; exact hlen, hcrowded⟩
    rwa [hcount, hcount] at hfewer

/-- Keys of half a page or less never get stuck. -/
theorem not_stuck_of_short {lengths : List Nat} (h : ∀ n ∈ lengths, n ≤ 2038) (k : Nat) :
    ¬ Packing.Stuck separatorsFit ((Packing.firsts separatorsFit)^[k] lengths) := by
  induction k generalizing lengths with
  | zero =>
    rintro ⟨hlen, hcrowded⟩
    rw [Function.iterate_zero_apply] at hlen hcrowded
    rcases lengths with _ | ⟨m, _ | ⟨n, lengths⟩⟩
    · exact absurd hlen (by decide)
    · exact absurd hlen (by simp)
    · have hfits := (List.isChain_cons_cons.mp hcrowded).1
      have hm := h m (by simp)
      have hn := h n (by simp)
      rw [separatorsFit_pair.mpr (by omega)] at hfits
      cases hfits
  | succ k ih =>
    rw [Function.iterate_succ_apply]
    exact ih fun n hn => h n (Packing.mem_of_mem_firsts hn)

/-! ## Two entries -/

theorem longEntry_fits (slotId : Fin 2) : RecordId.Fits ⟨1, slotId⟩ := by
  constructor
  · dsimp only
    omega
  · dsimp only
    omega

/-- An entry with a key of `length` zeros. -/
def longEntry (length : Nat) (slotId : Fin 2) : IndexEntry :=
  ⟨List.replicate length 0, ⟨1, slotId⟩, longEntry_fits slotId⟩

/-- An index with two such entries that is about to be written. -/
def twoEntries (length : Nat) : IndexFile :=
  ⟨[longEntry length ⟨0, Nat.zero_lt_two⟩, longEntry length ⟨1, Nat.one_lt_two⟩], 2, 1, 1,
    fun _ => Page.zero⟩

theorem fits_twoEntries {length : Nat} (h : length ≤ 4076) :
    (twoEntries length).entries.all entryFitsEmptyLeaf = true := by
  have h1 : uint16Max = 65535 := rfl
  have h2 : leafHeaderSize = 12 := rfl
  have h3 : entryHeaderSize = 8 := rfl
  have h4 : pageSize = 4096 := rfl
  simp only [twoEntries, longEntry, entryFitsEmptyLeaf, List.all_cons, List.all_nil,
    List.length_replicate, Bool.and_true, Bool.and_self, Bool.and_eq_true, decide_eq_true_eq]
  omega

/-- Two entries of more than 2034 bytes come into two leaves. -/
theorem leafKeyLengths_twoEntries {length : Nat} (hlong : 2035 ≤ length) (h : length ≤ 4076) :
    leafKeyLengths (twoEntries length).entries = [length, length] := by
  have h1 : uint16Max = 65535 := rfl
  have h2 : leafHeaderSize = 12 := rfl
  have h3 : entryHeaderSize = 8 := rfl
  have h4 : pageSize = 4096 := rfl
  have hone : encodedSize [longEntry length 0] ≤ pageSize := by
    simp only [encodedSize, longEntry, List.map_cons, List.map_nil, List.sum_cons, List.sum_nil,
      List.length_replicate]
    split <;> omega
  have htwo : ¬ encodedSize [longEntry length 0, longEntry length 1] ≤ pageSize := by
    simp only [encodedSize, longEntry, List.map_cons, List.map_nil, List.sum_cons, List.sum_nil,
      List.length_replicate]
    split <;> omega
  have hpack : Packing.pack (fun leaf => decide (encodedSize leaf ≤ pageSize))
      [longEntry length 0, longEntry length 1] = [[longEntry length 0], [longEntry length 1]] := by
    simp [Packing.pack, Packing.packFrom, hone, htwo]
  have hentries : (twoEntries length).entries = [longEntry length 0, longEntry length 1] := rfl
  rw [leafKeyLengths, splitLeafEntries, if_pos (fits_twoEntries h), hentries, hpack]
  simp [firstKey, longEntry]

/-- With two keys of 2039 bytes `write_pages` does not return. -/
theorem longKeys_not_built :
    ¬ ∀ f : IndexFile, f.entries.all entryFitsEmptyLeaf = true → TreeBuilt f := by
  intro h
  have hbuilt := h (twoEntries 2039) (fits_twoEntries (by omega))
  refine Packing.exists_iterate_le_one_iff.mp ((writePages_iff (fits_twoEntries (by omega))).mp
    hbuilt.returns) 0 ?_
  rw [Function.iterate_zero_apply, leafKeyLengths_twoEntries (by omega) (by omega)]
  exact ⟨Nat.le_refl 2, List.isChain_cons_cons.mpr ⟨by decide, List.IsChain.singleton 2039⟩⟩

/-- Two keys of 2038 bytes in two leaves get a root. -/
theorem treeBuilt_iff_shortKeys : leafKeyLengths (twoEntries 2038).entries = [2038, 2038] ∧
    TreeBuilt (twoEntries 2038) := by
  have hlengths := @leafKeyLengths_twoEntries 2038 (by omega) (by omega)
  refine ⟨hlengths, (treeBuilt_iff (twoEntries 2038) (fits_twoEntries (by omega))).mpr ?_⟩
  rw [hlengths]
  exact not_stuck_of_short (by simp)

end IndexFile

end ScratchDb
