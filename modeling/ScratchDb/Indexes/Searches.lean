import ScratchDb.Indexes.IndexPages

/-!
# What a search meets

The descent of `find_leaf_page` ends at the last leaf whose first key is at
most the key, and the walk from there meets the entries of that leaf and of
the leaves after it. Both hold of every file that a flush has written.
-/

namespace ScratchDb

open SearchTree

namespace IndexFile

/-! ## The descent -/

theorem mapM_id_eq_some {α : Type} {l : List (Option α)} {m : List α} (h : l.mapM id = some m) :
    l = m.map some := by
  induction l generalizing m with
  | nil =>
    rw [List.mapM_nil] at h
    cases h
    rfl
  | cons a l ih =>
    simp only [List.mapM_cons, id_eq, Option.bind_eq_bind, Option.bind_eq_some_iff,
      Option.pure_def, Option.some.injEq] at h
    obtain ⟨b, rfl, m', hm, rfl⟩ := h
    rw [ih hm, List.map_cons]

theorem selectChild_map_some (key : Bytes) (c : PageSummary) (cs : List PageSummary) :
    selectChild key false c.pageId (cs.map some) =
      (pickFrom PageSummary.firstKey key c cs).pageId := by
  induction cs generalizing c with
  | nil => rfl
  | cons d ds ih =>
    rw [List.map_cons, selectChild, pickFrom, ih d]
    by_cases hle : d.firstKey ≤ key <;> simp [hle]

/-- One round of `find_leaf_page`. -/
theorem findLeafPage_of_innerNode {f : IndexFile} {pageId : Nat} {c : PageSummary}
    {cs : List PageSummary} (h : innerNode f.pages f.pageCount pageId = some (c, cs))
    (key : Bytes) (fuel : Nat) : f.findLeafPage key (fuel + 1) pageId =
      f.findLeafPage key fuel (pickFrom PageSummary.firstKey key c cs).pageId := by
  rw [innerNode] at h
  split at h
  · cases h
  rename_i hgo
  rw [not_or, not_or, not_or, not_or, not_not, not_not] at hgo
  obtain ⟨-, hno, hcount, hmagic, htype⟩ := hgo
  have hleaf : ¬pageTypeInternal = pageTypeLeaf := by decide
  cases hread : (readChildren (f.pages pageId) ((f.pages pageId).readUint 5 2)
      internalHeaderSize).mapM id with
  | none => simp [hread] at h
  | some children =>
    cases children with
    | nil => simp [hread] at h
    | cons c' cs' =>
      simp only [hread, Option.some.injEq, Prod.mk.injEq] at h
      obtain ⟨rfl, rfl⟩ := h
      have hchildren := mapM_id_eq_some hread
      have hsome : (f.pages pageId).readUint 5 2 ≠ 0 := by
        intro hzero
        rw [hzero, readChildren] at hchildren
        cases hchildren
      rw [findLeafPage, if_neg (by rw [not_or]; exact ⟨hno, hcount⟩)]
      simp only [hmagic, htype, hleaf, ne_eq, not_true_eq_false, if_false, hsome, hchildren,
        List.map_cons, selectChild, true_or, if_true, selectChild_map_some]

theorem findLeafPage_of_descend {f : IndexFile} {key : Bytes} {n p q : Nat}
    (h : descend PageSummary.pageId (innerNode f.pages f.pageCount) PageSummary.firstKey key n p =
      some q) (fuel : Nat) : f.findLeafPage key (n + fuel) p = f.findLeafPage key fuel q := by
  induction n generalizing q fuel with
  | zero =>
    rw [descend, Option.some.injEq] at h
    rw [h, Nat.zero_add]
  | succ n ih =>
    rw [descend, Option.bind_eq_some_iff] at h
    obtain ⟨q', hq', hstep⟩ := h
    obtain ⟨⟨c, cs⟩, hnode, rfl⟩ := Option.map_eq_some_iff.mp hstep
    rw [Nat.add_right_comm, Nat.add_assoc, ih hq' (fuel + 1), findLeafPage_of_innerNode hnode]

/-! ## The leaves -/

/-- Only the leaf of an index without entries is empty. -/
theorem leaves_nonempty {entries : List IndexEntry} (h : splitLeafEntries entries ≠ []) :
    splitLeafEntries entries = [[]] ∨ ∀ leaf ∈ splitLeafEntries entries, leaf ≠ [] := by
  unfold splitLeafEntries at h ⊢
  by_cases hall : entries.all entryFitsEmptyLeaf = true
  · rw [if_pos hall]
    cases entries with
    | nil => exact .inl rfl
    | cons e es =>
      refine .inr (Packing.ne_nil_of_mem_packFrom (fun a ha => ?_) (.inr (by simp)))
      exact decide_eq_true (encodedSize_singleton_le (List.all_eq_true.mp hall a ha))
  · exact absurd (if_neg hall) h

/-- Entries in the order of their keys. -/
def KeysSorted (entries : List IndexEntry) : Prop := entries.Pairwise fun a b => a.key ≤ b.key

theorem keysSorted_of_sorted {entries : List IndexEntry} (h : Sorted entries) :
    KeysSorted entries :=
  h.imp IndexEntry.key_le_of_lt

theorem firstKey_mem {leaf : List IndexEntry} (h : leaf ≠ []) :
    ∃ e ∈ leaf, e.key = firstKey leaf := by
  obtain ⟨e, es, rfl⟩ := List.exists_cons_of_ne_nil h
  exact ⟨e, List.mem_cons_self .., rfl⟩

theorem firstKey_le {leaf : List IndexEntry} (h : KeysSorted leaf) :
    ∀ e ∈ leaf, firstKey leaf ≤ e.key := by
  intro e he
  cases leaf with
  | nil => cases he
  | cons d ds =>
    rcases List.mem_cons.mp he with rfl | he
    · exact le_refl _
    · exact (List.pairwise_cons.mp h).1 e he

theorem LeafChain.map_firstKey {pages : Nat → Page} {level : List PageSummary}
    {leaves : List (List IndexEntry)} (h : LeafChain pages level leaves) :
    level.map PageSummary.firstKey = leaves.map firstKey := by
  induction level generalizing leaves with
  | nil =>
    cases leaves with
    | nil => rfl
    | cons leaf leaves => exact h.elim
  | cons s level ih =>
    obtain ⟨leaf, rest, rfl, hkey, -, hrest⟩ := LeafChain.cons_iff.mp h
    rw [List.map_cons, List.map_cons, hkey, ih hrest]

theorem LeafChain.split {pages : Nat → Page} {before after : List PageSummary} {x : PageSummary}
    {leaves : List (List IndexEntry)} (h : LeafChain pages (before ++ x :: after) leaves) :
    ∃ bl cur post, bl.length = before.length ∧ leaves = bl ++ cur :: post ∧
      LeafChain pages (x :: after) (cur :: post) := by
  induction before generalizing leaves with
  | nil =>
    obtain ⟨cur, post, rfl, hrest⟩ := LeafChain.cons_iff.mp h
    exact ⟨[], cur, post, rfl, rfl, hrest⟩
  | cons s before ih =>
    obtain ⟨leaf, rest, rfl, -, -, hrest⟩ := LeafChain.cons_iff.mp h
    obtain ⟨bl, cur, post, hbl, rfl, hchain⟩ := ih hrest
    exact ⟨leaf :: bl, cur, post, by simp [hbl], rfl, hchain⟩

/-- The separators of the leaves stand in order. -/
theorem pairwise_firstKey {leaves : List (List IndexEntry)} (hsorted : KeysSorted leaves.flatten)
    (hne : leaves = [[]] ∨ ∀ leaf ∈ leaves, leaf ≠ []) :
    (leaves.map firstKey).Pairwise (· ≤ ·) := by
  rcases hne with rfl | hne
  · exact List.pairwise_singleton ..
  rw [List.pairwise_map]
  refine (List.pairwise_flatten.mp hsorted).2.imp_of_mem fun {a b} ha hb hab => ?_
  obtain ⟨e, he, hea⟩ := firstKey_mem (hne a ha)
  obtain ⟨d, hd, hdb⟩ := firstKey_mem (hne b hb)
  rw [← hea, ← hdb]
  exact hab e he d hd

/-- The leaf at which a search for `key` starts, and the leaves on its sides. -/
structure StartsAt (f : IndexFile) (key : Bytes) (before : List (List IndexEntry))
    (cur : List IndexEntry) (after : List (List IndexEntry)) : Prop where
  split : splitLeafEntries f.entries = before ++ cur :: after
  later : ∀ leaf ∈ after, ∀ e ∈ leaf, key < e.key
  first : before ≠ [] → ∃ e ∈ cur, e.key ≤ key
  page : ∃ x level, LeafChain f.pages (x :: level) (cur :: after) ∧
    (∀ s ∈ x :: level, s.pageId < f.pageCount) ∧ (x :: level).length < f.pageCount ∧
    ∀ fuel, f.pageCount ≤ fuel → f.findLeafPage key fuel f.rootPageId = some x.pageId

theorem Written.keysSorted {f : IndexFile} (hw : f.Written) :
    KeysSorted (splitLeafEntries f.entries).flatten := by
  rw [flatten_splitLeafEntries hw.leaves]
  exact keysSorted_of_sorted hw.sorted

/-- A search starts at the last leaf whose first key is at most the key. -/
theorem Written.startsAt {f : IndexFile} (hw : f.Written) (hsmall : f.pageCount < 2 ^ 32)
    (key : Bytes) : ∃ before cur after, f.StartsAt key before cur after := by
  obtain ⟨level, n, hchain, -, hids, hlength, hlayers⟩ := hw.tree
  have hne := leaves_nonempty hw.leaves
  have hflat := hw.keysSorted
  have hseps : level.Pairwise fun a b => a.firstKey ≤ b.firstKey := by
    have h := pairwise_firstKey hflat hne
    rwa [← hchain.map_firstKey, List.pairwise_map] at h
  obtain ⟨x, ⟨before, after, rfl, hafter, hbefore⟩, hdescend⟩ := hlayers.descend_eq hseps key
  obtain ⟨bl, cur, post, hbl, hsplit, hrest⟩ := hchain.split
  obtain ⟨_, _, hcons, hkey, hleaf, hpost⟩ := LeafChain.cons_iff.mp hrest
  obtain ⟨rfl, rfl⟩ := List.cons.inj hcons
  rw [hsplit] at hflat hne
  refine ⟨bl, cur, post, hsplit, fun leaf hmem e he => ?_, fun hbl' => ?_, x, after, hrest, ?_, ?_,
    fun fuel hfuel => ?_⟩
  · -- the separator of a later leaf is above the key, and is the least key of the leaf
    have hsep : firstKey leaf ∈ after.map PageSummary.firstKey := by
      rw [hpost.map_firstKey]
      exact List.mem_map_of_mem hmem
    obtain ⟨c, hc, heq⟩ := List.mem_map.mp hsep
    have hown : KeysSorted leaf := (List.pairwise_flatten.mp hflat).1 leaf (by simp [hmem])
    exact lt_of_lt_of_le (heq ▸ hafter c hc) (firstKey_le hown e he)
  · have hbefore' : before ≠ [] := by
      rintro rfl
      exact hbl' (List.length_eq_zero_iff.mp hbl)
    have hcur : cur ≠ [] := by
      rcases hne with hone | hne
      · -- a leaf before this one leaves no room for a single leaf
        have := congrArg List.length hone
        have hpos := List.length_pos_iff.mpr hbl'
        simp at this
        omega
      · exact hne cur (by simp)
    obtain ⟨e, he, heq⟩ := firstKey_mem hcur
    exact ⟨e, he, heq ▸ hkey ▸ hbefore hbefore'⟩
  · exact fun s hs => hids s (List.mem_append_right _ hs)
  · rw [List.length_append] at hlength
    omega
  · have hx : x.pageId < f.pageCount := hids x (by simp)
    have hno : noPage = 2 ^ 32 - 1 := rfl
    obtain ⟨rest, rfl⟩ : ∃ rest, fuel = n + (rest + 1) := ⟨fuel - n - 1, by omega⟩
    rw [findLeafPage_of_descend hdescend, findLeafPage, if_neg (by omega)]
    simp only [hleaf.magic, hleaf.pageType, ne_eq, not_true_eq_false, if_false, if_true]

/-! ## The walk over the leaves -/

/-- The record ids of the entries that a search is for. -/
def found (p : Bytes → Bool) (entries : List IndexEntry) : List RecordId :=
  (entries.filter fun e => p e.key).map IndexEntry.recordId

theorem found_append (p : Bytes → Bool) (l m : List IndexEntry) :
    found p (l ++ m) = found p l ++ found p m := by
  simp [found]

theorem found_cons (p : Bytes → Bool) (e : IndexEntry) (l : List IndexEntry) :
    found p (e :: l) = (if p e.key then [e.recordId] else []) ++ found p l := by
  by_cases he : p e.key = true <;> simp [found, he]

theorem found_eq_nil {p : Bytes → Bool} {l : List IndexEntry} (h : ∀ e ∈ l, p e.key = false) :
    found p l = [] := by
  rw [found, List.map_eq_nil_iff, List.filter_eq_nil_iff]
  intro e he
  simp [h e he]

/-- A leaf gives the record ids of the key, and ends the search at the first key above it. -/
theorem findInLeaf_eq (key : Bytes) {leaf : List IndexEntry} (hsorted : KeysSorted leaf)
    (result : List RecordId) (b : Bool) : findInLeaf key result b (leaf.map some) =
      if leaf.any fun e => key < e.key then .error (result ++ found (· = key) leaf)
      else .ok (result ++ found (· = key) leaf, b || leaf.any fun e => e.key = key) := by
  induction leaf generalizing result b with
  | nil => simp [findInLeaf, found]
  | cons e es ih =>
    have hes := List.pairwise_cons.mp hsorted
    rw [List.map_cons, findInLeaf, found_cons]
    by_cases heq : e.key = key
    · rw [if_pos heq, ih hes.2]
      simp [heq]
    · rw [if_neg heq]
      by_cases hlt : key < e.key
      · have hnone : found (· = key) es = [] := found_eq_nil fun d hd => by
          have := lt_of_lt_of_le hlt (hes.1 d hd)
          simpa using ne_of_gt this
        simp [hlt, heq, hnone]
      · rw [if_neg hlt, ih hes.2]
        simp [hlt, heq]

/-- `find` gives the record ids of its first leaf, where the later leaves are above the key. -/
theorem findFromPages_eq {pages : Nat → Page} {key : Bytes} {x : PageSummary}
    {level : List PageSummary} {cur : List IndexEntry} {after : List (List IndexEntry)}
    (hchain : LeafChain pages (x :: level) (cur :: after))
    (hids : ∀ s ∈ x :: level, s.pageId ≠ noPage)
    (hsorted : KeysSorted (cur :: after).flatten) (hne : ∀ leaf ∈ after, leaf ≠ [])
    (hlater : ∀ leaf ∈ after, ∀ e ∈ leaf, key < e.key) (fuel : Nat) :
    findFromPages pages key (fuel + 2) x.pageId [] = some (found (· = key) cur) := by
  obtain ⟨_, _, hcons, -, hleaf, hrest⟩ := LeafChain.cons_iff.mp hchain
  obtain ⟨rfl, rfl⟩ := List.cons.inj hcons
  have hown : ∀ leaf ∈ cur :: after, KeysSorted leaf := (List.pairwise_flatten.mp hsorted).1
  rw [findFromPages, if_neg (hids x (List.mem_cons_self ..))]
  simp only [hleaf.magic, hleaf.pageType, ne_eq, not_true_eq_false, or_self, if_false,
    hleaf.entries, findInLeaf_eq key (hown cur (List.mem_cons_self ..)), List.nil_append, hleaf.next]
  by_cases habove : (cur.any fun e => decide (key < e.key)) = true
  · rw [if_pos habove]
  rw [if_neg habove]
  cases hfound : cur.any fun e => decide (e.key = key) with
  | false => rfl
  | true =>
    change findFromPages pages key (fuel + 1) (nextOf level) (found (· = key) cur) = _
    cases level with
    | nil => rw [nextOf_nil, findFromPages, if_pos rfl]
    | cons s level =>
      -- the next leaf begins above the key
      obtain ⟨leaf, rest, rfl, -, hnext, -⟩ := LeafChain.cons_iff.mp hrest
      have hmem : leaf ∈ leaf :: rest := List.mem_cons_self ..
      obtain ⟨e, he⟩ := List.exists_mem_of_ne_nil _ (hne leaf hmem)
      have hany : (leaf.any fun e => decide (key < e.key)) = true :=
        List.any_eq_true.mpr ⟨e, he, by simpa using hlater leaf hmem e he⟩
      have hnone : found (· = key) leaf = [] := found_eq_nil fun d hd => by
        simpa using ne_of_gt (hlater leaf hmem d hd)
      rw [nextOf_cons, findFromPages, if_neg (hids s (by simp))]
      simp only [hnext.magic, hnext.pageType, ne_eq, not_true_eq_false, or_self, if_false,
        hnext.entries, findInLeaf_eq key (hown leaf (List.mem_cons_of_mem _ hmem)), hany, if_true,
        hnone, List.append_nil]

/-- The key is neither skipped nor one to stop at. -/
def KeyRange.contains (r : KeyRange) (key : Bytes) : Bool := !r.skips key && !r.stops key

theorem KeyRange.stops_of_le {r : KeyRange} {key key' : Bytes} (h : r.stops key = true)
    (hle : key ≤ key') : r.stops key' = true := by
  rw [KeyRange.stops, Option.any_eq_true] at h ⊢
  obtain ⟨upper, hupper, hkey⟩ := h
  refine ⟨upper, hupper, ?_⟩
  simp only [Bool.or_eq_true, decide_eq_true_iff, Bool.and_eq_true] at hkey ⊢
  rcases hkey with hlt | ⟨hexcl, rfl⟩
  · exact .inl (lt_of_lt_of_le hlt hle)
  · rcases lt_or_eq_of_le hle with hlt | heq
    · exact .inl hlt
    · exact .inr ⟨hexcl, heq.symm⟩

theorem KeyRange.contains_of_stops {r : KeyRange} {key : Bytes} (h : r.stops key = true) :
    r.contains key = false := by
  simp [KeyRange.contains, h]

/-- A leaf gives the record ids of the range, and ends the search at the first key behind it. -/
theorem rangeInLeaf_eq (r : KeyRange) {leaf : List IndexEntry} (hsorted : KeysSorted leaf)
    (result : List RecordId) : rangeInLeaf r result (leaf.map some) =
      if leaf.any fun e => !r.skips e.key && r.stops e.key then
        .error (result ++ found r.contains leaf)
      else .ok (result ++ found r.contains leaf) := by
  induction leaf generalizing result with
  | nil => simp [rangeInLeaf, found]
  | cons e es ih =>
    have hes := List.pairwise_cons.mp hsorted
    rw [List.map_cons, rangeInLeaf, found_cons]
    by_cases hskip : r.skips e.key = true
    · rw [if_pos hskip, ih hes.2]
      simp [hskip, KeyRange.contains]
    · rw [if_neg hskip]
      by_cases hstop : r.stops e.key = true
      · have hnone : found r.contains es = [] := found_eq_nil fun d hd =>
          KeyRange.contains_of_stops (KeyRange.stops_of_le hstop (hes.1 d hd))
        simp [hskip, hstop, hnone, KeyRange.contains]
      · rw [if_neg hstop, ih hes.2]
        simp [hskip, hstop, KeyRange.contains]

/-- `find_range` gives the record ids of all leaves it meets. -/
theorem rangeFromPages_eq {pages : Nat → Page} (r : KeyRange) {level : List PageSummary}
    {leaves : List (List IndexEntry)} (hchain : LeafChain pages level leaves)
    (hids : ∀ s ∈ level, s.pageId ≠ noPage) (hsorted : KeysSorted leaves.flatten)
    {fuel : Nat} (hfuel : level.length < fuel) (result : List RecordId) :
    rangeFromPages pages r fuel (nextOf level) result =
      some (result ++ found r.contains leaves.flatten) := by
  induction level generalizing leaves fuel result with
  | nil =>
    cases leaves with
    | cons leaf leaves => exact hchain.elim
    | nil =>
      obtain ⟨fuel, rfl⟩ := Nat.exists_eq_add_of_lt hfuel
      rw [List.length_nil, Nat.zero_add, rangeFromPages, nextOf_nil, if_pos rfl]
      simp [found]
  | cons s level ih =>
    obtain ⟨leaf, rest, rfl, -, hleaf, hrest⟩ := LeafChain.cons_iff.mp hchain
    rw [List.flatten_cons] at hsorted ⊢
    obtain ⟨hown, hothers, hcross⟩ := List.pairwise_append.mp hsorted
    obtain ⟨fuel, rfl⟩ : ∃ k, fuel = k + 1 := ⟨fuel - 1, by omega⟩
    rw [List.length_cons] at hfuel
    rw [nextOf_cons, rangeFromPages, if_neg (hids s (List.mem_cons_self ..))]
    simp only [hleaf.magic, hleaf.pageType, ne_eq, not_true_eq_false, or_self, if_false,
      hleaf.entries, rangeInLeaf_eq r hown, hleaf.next]
    by_cases hend : (leaf.any fun e => !r.skips e.key && r.stops e.key) = true
    · -- every later key is behind the range too
      obtain ⟨e, he, hstop⟩ := List.any_eq_true.mp hend
      rw [Bool.and_eq_true] at hstop
      have hnone : found r.contains rest.flatten = [] := found_eq_nil fun d hd =>
        KeyRange.contains_of_stops (KeyRange.stops_of_le hstop.2 (hcross e he d hd))
      rw [if_pos hend, found_append, hnone, List.append_nil]
    · rw [if_neg hend, found_append, ← List.append_assoc]
      exact ih hrest (fun c hc => hids c (List.mem_cons_of_mem _ hc)) hothers (by omega) _

/-! ## Searches of a written file -/

theorem StartsAt.find_eq {f : IndexFile} {key : Bytes} {before after : List (List IndexEntry)}
    {cur : List IndexEntry} (hs : f.StartsAt key before cur after) (hw : f.Written)
    (hsmall : f.pageCount < 2 ^ 32) {fuel : Nat} (hfuel : f.pageCount ≤ fuel) :
    f.find key fuel = some (found (· = key) cur) := by
  obtain ⟨x, level, hchain, hids, hlength, hdescend⟩ := hs.page
  have hno : noPage = 2 ^ 32 - 1 := rfl
  have hflat := hw.keysSorted
  rw [hs.split, List.flatten_append] at hflat
  have hne : ∀ leaf ∈ after, leaf ≠ [] := by
    rcases leaves_nonempty hw.leaves with hone | hne
    · -- the only leaf has none after it
      have h := congrArg List.length hone
      rw [hs.split] at h
      simp only [List.length_append, List.length_cons, List.length_nil] at h
      have hafter : after = [] := List.length_eq_zero_iff.mp (by omega)
      simp [hafter]
    · exact fun leaf hleaf => hne leaf (by simp [hs.split, hleaf])
  rw [List.length_cons] at hlength
  obtain ⟨fuel, rfl⟩ : ∃ k, fuel = k + 2 := ⟨fuel - 2, by omega⟩
  rw [find, hdescend _ hfuel, Option.bind_eq_bind, Option.bind_some]
  refine findFromPages_eq hchain (fun s hmem => ?_) (List.pairwise_append.mp hflat).2.1 hne hs.later
    fuel
  have := hids s hmem
  omega

/-- `find_range` from the leaf of its lower bound. -/
theorem StartsAt.findRange_eq {f : IndexFile} {r : KeyRange} {lower : Bytes}
    {before after : List (List IndexEntry)} {cur : List IndexEntry}
    (hs : f.StartsAt lower before cur after) (hlower : r.lowerKey = some lower) (hw : f.Written)
    (hsmall : f.pageCount < 2 ^ 32) {fuel : Nat} (hfuel : f.pageCount ≤ fuel) :
    f.findRange r fuel = some (found r.contains (cur :: after).flatten) := by
  obtain ⟨x, level, hchain, hids, hlength, hdescend⟩ := hs.page
  have hno : noPage = 2 ^ 32 - 1 := rfl
  have hflat := hw.keysSorted
  rw [hs.split, List.flatten_append] at hflat
  rw [findRange, hlower]
  simp only [hdescend _ hfuel, Option.bind_eq_bind, Option.bind_some]
  rw [← nextOf_cons x level]
  refine (rangeFromPages_eq r hchain (fun s hmem => ?_) (List.pairwise_append.mp hflat).2.1
    (by omega) []).trans rfl
  have := hids s hmem
  omega

/-- `find_range` without a lower bound meets all leaves. -/
theorem Written.findRange_eq {f : IndexFile} {r : KeyRange} (hw : f.Written)
    (hlower : r.lowerKey = none) (hsmall : f.pageCount < 2 ^ 32) {fuel : Nat}
    (hfuel : f.pageCount ≤ fuel) : f.findRange r fuel = some (found r.contains f.entries) := by
  obtain ⟨level, n, hchain, hfirst, hids, hlength, -⟩ := hw.tree
  have hno : noPage = 2 ^ 32 - 1 := rfl
  rw [findRange, hlower]
  simp only [Option.bind_eq_bind, Option.bind_some]
  rw [← hfirst]
  refine (rangeFromPages_eq r hchain (fun s hmem => ?_) hw.keysSorted (by omega) []).trans ?_
  · have := hids s hmem
    omega
  · rw [List.nil_append, flatten_splitLeafEntries hw.leaves]

end IndexFile

end ScratchDb
