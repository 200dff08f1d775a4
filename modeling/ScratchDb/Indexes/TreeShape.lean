import ScratchDb.Indexes.Reloading

/-!
# The shape of an index tree

The pages that `write_pages` writes form a tree: the pages of a level follow
one another, each inner page lists a stretch of the level below it, and so the
children of all inner pages together are the pages from 1 to the one before
the root. The header tells the number of levels as long as 16 bits hold it.
-/

namespace ScratchDb

namespace IndexFile

/-! ## Trees of pages -/

/-- The entries of a leaf page. -/
def leafOf (page : Page) : Option (List IndexEntry) :=
  if page.readUint 0 4 = indexMagic ∧ page.get 4 = pageTypeLeaf then (leafEntries page).mapM id
  else none

/-- The children of an inner page. -/
def childrenOf (page : Page) : Option (List PageSummary) :=
  if page.readUint 0 4 = indexMagic ∧ page.get 4 = pageTypeInternal then
    (readChildren page (page.readUint 5 2) internalHeaderSize).mapM id
  else none

def childIds (page : Page) : List Nat := ((childrenOf page).getD []).map PageSummary.pageId

/-- The page is reached from the root through so many pages, itself and the root included. -/
inductive AtDepth (f : IndexFile) : Nat → Nat → Prop where
  | root : AtDepth f f.rootPageId 1
  | child {p q d : Nat} : AtDepth f p d → q ∈ childIds (f.pages p) → AtDepth f q (d + 1)

/-- The first key of the first leaf below a page. -/
inductive FirstKey (pages : Nat → Page) : Nat → Bytes → Prop where
  | leaf {p : Nat} {leaf : List IndexEntry} : leafOf (pages p) = some leaf →
      FirstKey pages p (firstKey leaf)
  | inner {p : Nat} {key : Bytes} {child : PageSummary} {children : List PageSummary} :
      childrenOf (pages p) = some (child :: children) → FirstKey pages child.pageId key →
      FirstKey pages p key

/-- The leaves that are met from page `p` on, up to the end of the chain. -/
def Chained (pages : Nat → Page) : Nat → List Nat → Prop
  | p, [] => p = noPage
  | p, q :: ids => p = q ∧ (leafOf (pages q)).isSome ∧ Chained pages ((pages q).readUint 5 4) ids

def chainEntries (pages : Nat → Page) (ids : List Nat) : List IndexEntry :=
  ids.flatMap fun p => (leafOf (pages p)).getD []

/-- The bytes of a leaf. -/
def leafSize (leaf : List IndexEntry) : Nat :=
  leafHeaderSize + (leaf.map fun e => entryHeaderSize + e.key.length).sum

/-- The pages behind the header are a tree over a chain of leaves with the entries. -/
structure WellFormed (f : IndexFile) : Prop where
  root : 1 ≤ f.rootPageId ∧ f.rootPageId < f.pageCount
  childOnce : ∀ p, 1 ≤ p → p < f.pageCount → p ≠ f.rootPageId →
    ((List.range' 1 (f.pageCount - 1)).flatMap fun q => childIds (f.pages q)).count p = 1
  sizes : ∀ p, 1 ≤ p → p < f.pageCount →
    (∃ leaf, leafOf (f.pages p) = some leaf ∧ leafSize leaf ≤ pageSize) ∨
    ∃ children, childrenOf (f.pages p) = some children ∧ internalSize children ≤ pageSize
  depth : ∀ p, 1 ≤ p → p < f.pageCount → (leafOf (f.pages p)).isSome →
    ∀ d, AtDepth f p d ↔ d = f.treeHeight
  separators : ∀ p, 1 ≤ p → p < f.pageCount → ∀ children, childrenOf (f.pages p) = some children →
    (∀ c ∈ children, FirstKey f.pages c.pageId c.firstKey) ∧
      children.Pairwise fun a b => a.firstKey ≤ b.firstKey
  chain : ∃ ids, Chained f.pages 1 ids ∧ ids.Nodup ∧ chainEntries f.pages ids = f.entries ∧
    ∀ p, 1 ≤ p → p < f.pageCount → ((leafOf (f.pages p)).isSome ↔ p ∈ ids)

/-! ## Leaves and inner pages -/

theorem leafOf_of_holdsLeaf {p : Page} {next : Nat} {leaf : List IndexEntry}
    (h : HoldsLeaf p next leaf) : leafOf p = some leaf := by
  rw [leafOf, if_pos ⟨h.magic, h.pageType⟩, h.entries, mapM_id_map_some]

theorem childrenOf_of_holdsChildren {p : Page} {children : List PageSummary}
    (h : HoldsChildren p children) : childrenOf p = some children := by
  rw [childrenOf, if_pos ⟨h.magic, h.pageType⟩, h.count, h.children, mapM_id_map_some]

/-- A page has one type. -/
theorem childrenOf_of_leafOf {p : Page} {leaf : List IndexEntry} (h : leafOf p = some leaf) :
    childrenOf p = none := by
  rw [leafOf] at h
  split at h
  · rename_i hleaf
    refine if_neg fun hinner => ?_
    have htypes := hleaf.2.symm.trans hinner.2
    exact absurd htypes (by decide)
  · cases h

theorem leafOf_of_childrenOf {p : Page} {children : List PageSummary}
    (h : childrenOf p = some children) : leafOf p = none := by
  cases hleaf : leafOf p with
  | none => rfl
  | some leaf =>
    rw [childrenOf_of_leafOf hleaf] at h
    cases h

theorem childIds_of_leafOf {p : Page} {leaf : List IndexEntry} (h : leafOf p = some leaf) :
    childIds p = [] := by
  rw [childIds, childrenOf_of_leafOf h]
  rfl

theorem childIds_of_childrenOf {p : Page} {children : List PageSummary}
    (h : childrenOf p = some children) : childIds p = children.map PageSummary.pageId := by
  rw [childIds, h]
  rfl

/-- The pages below page `p`: all leaves as many levels down, the separators the first keys, and
the children before their parents. -/
inductive Subtree (pages : Nat → Page) : Nat → Nat → Bytes → Prop where
  | leaf {p : Nat} {leaf : List IndexEntry} : leafOf (pages p) = some leaf →
      leafSize leaf ≤ pageSize → Subtree pages 1 p (firstKey leaf)
  | inner {p height : Nat} {child : PageSummary} {children : List PageSummary} :
      childrenOf (pages p) = some (child :: children) →
      internalSize (child :: children) ≤ pageSize →
      (child :: children).Pairwise (fun a b => a.firstKey ≤ b.firstKey) →
      (∀ c ∈ child :: children, 1 ≤ c.pageId ∧ c.pageId < p) →
      (∀ c ∈ child :: children, Subtree pages height c.pageId c.firstKey) →
      Subtree pages (height + 1) p child.firstKey

section

variable {pages pages' : Nat → Page} {height p : Nat} {key : Bytes}

theorem Subtree.congr (h : Subtree pages height p key) (hp : 1 ≤ p)
    (hsame : ∀ k, 1 ≤ k → k ≤ p → pages' k = pages k) : Subtree pages' height p key := by
  induction h with
  | leaf hleaf hsize => exact .leaf (by rw [hsame _ hp (Nat.le_refl _)]; exact hleaf) hsize
  | inner hchildren hsize hsorted hbelow _ ih =>
    refine .inner (by rw [hsame _ hp (Nat.le_refl _)]; exact hchildren) hsize hsorted hbelow ?_
    intro c hc
    have hchild := hbelow c hc
    exact ih c hc hchild.1 fun k hk hle => hsame k hk (by omega)

theorem Subtree.firstKey (h : Subtree pages height p key) : FirstKey pages p key := by
  induction h with
  | leaf hleaf _ => exact .leaf hleaf
  | inner hchildren _ _ _ _ ih => exact .inner hchildren (ih _ List.mem_cons_self)

/-- A leaf has one level. -/
theorem Subtree.height_of_leafOf (h : Subtree pages height p key)
    (hleaf : (leafOf (pages p)).isSome) : height = 1 := by
  cases h with
  | leaf _ _ => rfl
  | inner hchildren _ _ _ _ =>
    rw [leafOf_of_childrenOf hchildren] at hleaf
    cases hleaf

theorem Subtree.of_child {q : Nat} (h : Subtree pages height p key) (hq : q ∈ childIds (pages p)) :
    ∃ below keyBelow, height = below + 1 ∧ q < p ∧ Subtree pages below q keyBelow := by
  cases h with
  | leaf hleaf _ =>
    rw [childIds_of_leafOf hleaf] at hq
    cases hq
  | inner hchildren _ _ hbelow hsub =>
    rw [childIds_of_childrenOf hchildren] at hq
    obtain ⟨c, hc, rfl⟩ := List.mem_map.mp hq
    exact ⟨_, _, rfl, (hbelow c hc).2, hsub c hc⟩

end

/-! ## Levels -/

/-- The pages before `next`: those from `first` on are the level on top, all others are children. -/
structure Grown (pages : Nat → Page) (leafCount first next height : Nat)
    (level : List PageSummary) : Prop where
  positive : 1 ≤ first
  ends : first + level.length = next
  ids : level.map PageSummary.pageId = List.range' first level.length
  sorted : level.Pairwise fun a b => a.firstKey ≤ b.firstKey
  top : ∀ s ∈ level, Subtree pages height s.pageId s.firstKey
  below : ∀ p, 1 ≤ p → p < next → ∃ height key, Subtree pages height p key
  inner : ∀ p, leafCount < p → p < next → (childrenOf (pages p)).isSome
  children : ((List.range' 1 (next - 1)).flatMap fun q => childIds (pages q)) =
    List.range' 1 (first - 1)

theorem ids_of_writeLeaves {pages pages' : Nat → Page} {pageId : Nat}
    {leaves : List (List IndexEntry)} {level : List PageSummary}
    (h : writeLeaves pages pageId leaves = some (pages', level)) :
    level.map PageSummary.pageId = List.range' pageId leaves.length := by
  induction leaves generalizing pages pages' pageId level with
  | nil =>
    rw [writeLeaves, Option.some.injEq, Prod.mk.injEq] at h
    rw [← h.2]
    rfl
  | cons leaf leaves ih =>
    simp only [writeLeaves, Option.bind_eq_bind, Option.bind_eq_some_iff, Option.some.injEq,
      Prod.mk.injEq] at h
    obtain ⟨page, -, ⟨pages'', level'⟩, hrest, -, rfl⟩ := h
    rw [List.map_cons, ih hrest, List.length_cons, List.range'_succ]

theorem ids_of_writeGroups {pages pages' : Nat → Page} {nextPageId : Nat}
    {groups : List (List PageSummary)} {level : List PageSummary}
    (h : writeGroups pages nextPageId groups = some (pages', level)) :
    level.map PageSummary.pageId = List.range' nextPageId groups.length := by
  induction groups generalizing pages pages' nextPageId level with
  | nil =>
    rw [writeGroups, Option.some.injEq, Prod.mk.injEq] at h
    rw [← h.2]
    rfl
  | cons children groups ih =>
    simp only [writeGroups, Option.bind_eq_bind, Option.bind_eq_some_iff, Option.some.injEq,
      Prod.mk.injEq] at h
    obtain ⟨page, -, ⟨pages'', level'⟩, hrest, -, rfl⟩ := h
    rw [List.map_cons, ih hrest, List.length_cons, List.range'_succ]

/-- The summaries of a chain of leaves. -/
theorem LeafChain.mem {pages : Nat → Page} {level : List PageSummary}
    {leaves : List (List IndexEntry)} (h : LeafChain pages level leaves) {s : PageSummary}
    (hs : s ∈ level) : ∃ leaf ∈ leaves, s.firstKey = IndexFile.firstKey leaf ∧
      leafOf (pages s.pageId) = some leaf := by
  induction level generalizing leaves with
  | nil => cases hs
  | cons c level ih =>
    obtain ⟨leaf, rest, rfl, hkey, hleaf, hrest⟩ := LeafChain.cons_iff.mp h
    rcases List.mem_cons.mp hs with rfl | hs
    · exact ⟨leaf, List.mem_cons_self, hkey, leafOf_of_holdsLeaf hleaf⟩
    · obtain ⟨leaf', hmem, hfound⟩ := ih hrest hs
      exact ⟨leaf', List.mem_cons_of_mem _ hmem, hfound⟩

/-- The leaves are a level of one. -/
theorem grown_of_writeLeaves {pages pages' : Nat → Page} {leaves : List (List IndexEntry)}
    {level : List PageSummary} (h : writeLeaves pages 1 leaves = some (pages', level))
    (hroom : 1 + leaves.length < 2 ^ 32) (hsizes : ∀ leaf ∈ leaves, leafSize leaf ≤ pageSize)
    (hsorted : (leaves.map IndexFile.firstKey).Pairwise (· ≤ ·)) :
    Grown pages' leaves.length 1 (leaves.length + 1) 1 level := by
  have hw := leavesWritten_of_writeLeaves h hroom
  have hids := ids_of_writeLeaves h
  have hmem : ∀ p, 1 ≤ p → p < leaves.length + 1 → ∃ s ∈ level, s.pageId = p := by
    intro p hp hlt
    have hin : p ∈ level.map PageSummary.pageId := by
      rw [hids]
      exact List.mem_range'_1.mpr ⟨hp, by omega⟩
    exact List.mem_map.mp hin
  have htop : ∀ s ∈ level, Subtree pages' 1 s.pageId s.firstKey := by
    intro s hs
    obtain ⟨leaf, hleaf, hkey, hpage⟩ := hw.chain.mem hs
    rw [hkey]
    exact .leaf hpage (hsizes leaf hleaf)
  refine ⟨Nat.le_refl 1, ?_, ?_, ?_, htop, ?_, ?_, ?_⟩
  · rw [hw.length, Nat.add_comm]
  · rw [hids, hw.length]
  · rwa [← hw.chain.map_firstKey, List.pairwise_map] at hsorted
  · intro p hp hlt
    obtain ⟨s, hs, rfl⟩ := hmem p hp hlt
    exact ⟨1, s.firstKey, htop s hs⟩
  · intro p hleaf hlt
    omega
  · rw [Nat.add_sub_cancel, Nat.sub_self, List.range'_zero, List.flatMap_eq_nil_iff]
    intro p hp
    have hbounds := List.mem_range'_1.mp hp
    obtain ⟨s, hs, rfl⟩ := hmem p hbounds.1 (by omega)
    obtain ⟨leaf, -, -, hpage⟩ := hw.chain.mem hs
    exact childIds_of_leafOf hpage

/-- A round puts a level of inner pages on the level on top. -/
theorem Grown.round {s t : Levels} {leafCount first height : Nat}
    (h : Grown s.pages leafCount first s.nextPageId height s.level) (hsep : Separable s.level)
    (hround : s.round = some t) (hsmall : t.nextPageId < 2 ^ 32) :
    Grown t.pages leafCount s.nextPageId t.nextPageId (height + 1) t.level := by
  rw [Levels.round, Option.bind_eq_bind] at hround
  obtain ⟨⟨pages, level⟩, hwrite, heq⟩ := Option.bind_eq_some_iff.mp hround
  cases heq
  have hpositive := h.positive
  have hends := h.ends
  have hflat := flatten_internalGroups s.level
  have hbefore : ∀ c ∈ s.level, 1 ≤ c.pageId ∧ c.pageId < s.nextPageId := by
    intro c hc
    have hin : c.pageId ∈ s.level.map PageSummary.pageId := List.mem_map_of_mem hc
    rw [h.ids] at hin
    have hbounds := List.mem_range'_1.mp hin
    omega
  have hmemLevel : ∀ g ∈ internalGroups s.level, ∀ c ∈ g, c ∈ s.level := by
    intro g hg c hc
    rw [← hflat]
    exact List.mem_flatten.mpr ⟨g, hg, hc⟩
  obtain ⟨gs, hw⟩ := groupsWritten_of_writeGroups hwrite
    (fun g hg => ne_nil_of_mem_internalGroups hg) fun g hg c hc => by
      have := hbefore c (hmemLevel g hg c hc)
      dsimp only at hsmall
      omega
  have hids := ids_of_writeGroups hwrite
  have hall : gs.flatMap SearchTree.Group.all = s.level := by
    rw [List.flatMap_def, hw.all, hflat]
  have hgroup : ∀ g ∈ gs, g.all ∈ internalGroups s.level := by
    intro g hg
    rw [← hw.all]
    exact List.mem_map_of_mem hg
  have hlength : level.length = (internalGroups s.level).length := by
    have := congrArg List.length hids
    rwa [List.length_map, List.length_range'] at this
  have hinner : ∀ g ∈ gs, childrenOf (pages g.summary.pageId) = some g.all := fun g hg =>
    childrenOf_of_holdsChildren (hw.holds g hg)
  have hframe : ∀ {q below : Nat} {key : Bytes}, 1 ≤ q → q < s.nextPageId →
      Subtree s.pages below q key → Subtree pages below q key := fun hq hlt hsub =>
    hsub.congr hq fun k _ hk => hw.frame k (by omega)
  have hsubtree : ∀ g ∈ gs, Subtree pages (height + 1) g.summary.pageId g.summary.firstKey := by
    intro g hg
    have hpages := hmemLevel g.all (hgroup g hg)
    have hown : g.all.Pairwise fun a b => a.firstKey ≤ b.firstKey := by
      have hsorted := h.sorted
      rw [← hall] at hsorted
      exact (List.pairwise_flatMap.mp hsorted).1 g hg
    rw [hw.sep g hg]
    refine .inner (hinner g hg) (hsep.internalSize_le (hgroup g hg)) hown (fun c hc => ?_)
      fun c hc => ?_
    · have hid := (hw.ids g hg).1
      have := hbefore c (hpages c hc)
      omega
    · have hchild := hbefore c (hpages c hc)
      exact hframe hchild.1 hchild.2 (h.top c (hpages c hc))
  have hnew : ∀ p, s.nextPageId ≤ p → p < s.nextPageId + (internalGroups s.level).length →
      ∃ g ∈ gs, g.summary.pageId = p := by
    intro p hp hlt
    have hin : p ∈ level.map PageSummary.pageId := by
      rw [hids]
      exact List.mem_range'_1.mpr ⟨hp, hlt⟩
    rw [← hw.summaries, List.map_map] at hin
    exact List.mem_map.mp hin
  refine ⟨by omega, by dsimp only; rw [hlength], by dsimp only; rw [hids, hlength], ?_, ?_, ?_, ?_,
    ?_⟩
  · have hsorted := h.sorted
    rw [← hall] at hsorted
    dsimp only
    rw [← hw.summaries]
    exact SearchTree.pairwise_summaries hw.sep hsorted
  · intro c hc
    rw [← hw.summaries] at hc
    obtain ⟨g, hg, rfl⟩ := List.mem_map.mp hc
    exact hsubtree g hg
  · intro p hp hlt
    rcases Nat.lt_or_ge p s.nextPageId with hold | hge
    · obtain ⟨below, key, hsub⟩ := h.below p hp hold
      exact ⟨below, key, hframe hp hold hsub⟩
    · obtain ⟨g, hg, rfl⟩ := hnew p hge hlt
      exact ⟨height + 1, _, hsubtree g hg⟩
  · intro p hleaf hlt
    dsimp only
    rcases Nat.lt_or_ge p s.nextPageId with hold | hge
    · rw [hw.frame p hold]
      exact h.inner p hleaf hold
    · obtain ⟨g, hg, rfl⟩ := hnew p hge hlt
      rw [hinner g hg]
      rfl
  · -- the pages before the round have the children they had, the new ones the level
    have hold : ((List.range' 1 (s.nextPageId - 1)).flatMap fun q => childIds (pages q)) =
        List.range' 1 (first - 1) := by
      rw [← h.children]
      refine List.flatMap_congr fun q hq => ?_
      have hbounds := List.mem_range'_1.mp hq
      rw [hw.frame q (by omega)]
    have hlevel : ((List.range' s.nextPageId (internalGroups s.level).length).flatMap
        fun q => childIds (pages q)) = List.range' first s.level.length := by
      rw [← hids, ← hw.summaries, List.map_map, List.flatMap_map, ← h.ids, ← hall, List.map_flatMap]
      exact List.flatMap_congr fun g hg => childIds_of_childrenOf (hinner g hg)
    have hsplit : List.range' 1 (s.nextPageId + (internalGroups s.level).length - 1) =
        List.range' 1 (s.nextPageId - 1) ++
          List.range' s.nextPageId (internalGroups s.level).length := by
      have hjoin := @List.range'_append_1 1 (s.nextPageId - 1) (internalGroups s.level).length
      rw [Nat.add_sub_cancel' (by omega)] at hjoin
      rw [hjoin]
      congr 1
      omega
    have hjoin := @List.range'_append_1 1 (first - 1) s.level.length
    rw [Nat.add_sub_cancel' hpositive] at hjoin
    rw [hsplit, List.flatMap_append, hold, hlevel, hjoin]
    congr 1
    omega

/-- The loop over the levels stops under a root. -/
theorem Grown.writeLevels {fuel : Nat} {s t : Levels} {leafCount first height n pages : Nat}
    (h : Grown s.pages leafCount first s.nextPageId height s.level) (hsep : Separable s.level)
    (htower : Packing.Tower separatorsFit (keyLengths s.level) (n + 1) pages)
    (hlevels : IndexFile.writeLevels fuel s = some t) (hsmall : t.nextPageId < 2 ^ 32) :
    ∃ first, Grown t.pages leafCount first t.nextPageId (height + n) t.level ∧
      t.level.length ≤ 1 := by
  have hlength : ∀ level : List PageSummary, (keyLengths level).length = level.length :=
    fun level => List.length_map _
  induction fuel generalizing s first height n pages with
  | zero => cases hlevels
  | succ fuel ih =>
    rw [writeLevels_succ] at hlevels
    split at hlevels
    · rename_i hshort
      cases hlevels
      cases htower with
      | top _ => exact ⟨first, h, hshort⟩
      | level hlong _ =>
        rw [hlength] at hlong
        omega
    · rename_i hlong
      obtain ⟨u, hround, husep, hkeys⟩ := hsep.round
      rw [hround, Option.bind_some] at hlevels
      have hup : u.nextPageId < 2 ^ 32 := by
        have := nextPageId_le_of_writeLevels hlevels
        omega
      cases htower with
      | top hshort =>
        rw [hlength] at hshort
        exact absurd hshort hlong
      | level _ above =>
        rw [← hkeys] at above
        obtain ⟨m, rfl⟩ := Nat.exists_eq_add_one.mpr above.levels_pos
        obtain ⟨first', hgrown, hshort⟩ := ih (h.round hsep hround hup) husep above hlevels
        refine ⟨first', ?_, hshort⟩
        rwa [Nat.add_assoc, Nat.add_comm 1 m] at hgrown

theorem Grown.congr {pages pages' : Nat → Page} {leafCount first next height : Nat}
    {level : List PageSummary} (h : Grown pages leafCount first next height level)
    (hsame : ∀ k, 1 ≤ k → pages' k = pages k) : Grown pages' leafCount first next height level := by
  have hsub : ∀ {q below : Nat} {key : Bytes}, 1 ≤ q → Subtree pages below q key →
      Subtree pages' below q key := fun hq hsub => hsub.congr hq fun k hk _ => hsame k hk
  refine ⟨h.positive, h.ends, h.ids, h.sorted, ?_, ?_, ?_, ?_⟩
  · intro s hs
    have hin : s.pageId ∈ level.map PageSummary.pageId := List.mem_map_of_mem hs
    rw [h.ids] at hin
    exact hsub (h.positive.trans (List.mem_range'_1.mp hin).1) (h.top s hs)
  · intro p hp hlt
    obtain ⟨below, key, hp'⟩ := h.below p hp hlt
    exact ⟨below, key, hsub hp hp'⟩
  · intro p hleaf hlt
    rw [hsame p (by omega)]
    exact h.inner p hleaf hlt
  · rw [← h.children]
    refine List.flatMap_congr fun q hq => ?_
    rw [hsame q (List.mem_range'_1.mp hq).1]

/-! ## Whole trees -/

/-- The pages of a file are a tree of so many levels over its leaves. -/
structure Built (f : IndexFile) (levels : Nat) (root : PageSummary) (leaves : List PageSummary) :
    Prop where
  top : root.pageId = f.rootPageId
  grown : Grown f.pages leaves.length f.rootPageId f.pageCount levels [root]
  chain : LeafChain f.pages leaves (splitLeafEntries f.entries)
  ids : leaves.map PageSummary.pageId = List.range' 1 leaves.length
  cut : splitLeafEntries f.entries ≠ []

theorem built_of_writePages {fuel : Nat} {f g : IndexFile} (h : writePages fuel f = some g)
    (hsorted : Sorted f.entries) (hsmall : g.Numbered) :
    ∃ levels pages root leaves, TreeOf f.entries levels pages ∧
      g.treeHeight = levels % 2 ^ 16 ∧ Built g levels root leaves := by
  obtain ⟨levels, total, htree, -, hheight⟩ := treeOf_of_writePages h
  obtain ⟨hcut, hentries, pages, leaves, s, root, hwrite, hlevels, hroot, hid, hcount, -, hpages⟩ :=
    writePages_eq_some h
  obtain ⟨pages', leaves', hwrite', hkeys, hsep⟩ := leaves_written f
  rw [hwrite] at hwrite'
  cases hwrite'
  have hle := nextPageId_le_of_writeLevels hlevels
  dsimp only at hle
  rw [Numbered, hcount] at hsmall
  have hw := leavesWritten_of_writeLeaves hwrite (by omega)
  have hkeysSorted : KeysSorted (splitLeafEntries f.entries).flatten := by
    rw [flatten_splitLeafEntries hcut]
    exact keysSorted_of_sorted hsorted
  have hbottom := grown_of_writeLeaves hwrite (by omega)
    (fun leaf hleaf => encodedSize_le_of_mem hleaf)
    (pairwise_firstKey hkeysSorted (leaves_nonempty hcut))
  obtain ⟨n, rfl⟩ := Nat.exists_eq_add_one.mpr htree.levels_pos
  rw [TreeOf, ← hkeys] at htree
  obtain ⟨first, hgrown, hshort⟩ := @Grown.writeLevels fuel
    ⟨pages, leaves, (splitLeafEntries f.entries).length + 1, 1⟩ s _ _ _ _ _ hbottom hsep htree
    hlevels hsmall
  have hlevel : s.level = [root] := by
    cases hs : s.level with
    | nil =>
      rw [hs] at hroot
      cases hroot
    | cons c rest =>
      rw [hs] at hroot hshort
      cases hroot
      rw [List.length_cons] at hshort
      have hrest : rest = [] := List.eq_nil_of_length_eq_zero (by omega)
      rw [hrest]
  have hfirst : first = root.pageId := by
    have hids := hgrown.ids
    rw [hlevel] at hids
    exact (List.cons.inj hids).1.symm
  -- only the header is written after the levels
  have hsame : ∀ k, 1 ≤ k → g.pages k = s.pages k := fun k hk => by
    rw [hpages, Function.update_of_ne (by omega)]
  have hframe : ∀ c ∈ leaves, g.pages c.pageId = pages c.pageId := by
    intro c hc
    have hbounds := hw.ids c hc
    rw [hsame _ hbounds.1]
    obtain ⟨k, root', hl⟩ := levelsWritten_of_writeLevels hlevels (List.ne_nil_of_mem hc)
      (Nat.succ_pos _) (fun c hc => by have := hw.ids c hc; dsimp only; omega)
      (by dsimp only; omega) hsmall
    exact hl.frame _ (by dsimp only; omega)
  refine ⟨n + 1, total, root, leaves, ?_, hheight, hid.symm, ?_, ?_, ?_, hentries ▸ hcut⟩
  · rw [TreeOf, ← hkeys]
    exact htree
  · rw [hid, hcount, ← hfirst, ← hlevel, hw.length, Nat.add_comm n 1]
    exact hgrown.congr hsame
  · rw [hentries]
    exact hw.chain.congr hframe
  · rw [ids_of_writeLeaves hwrite, hw.length]

theorem LeafChain.chained {pages : Nat → Page} {level : List PageSummary}
    {leaves : List (List IndexEntry)} (h : LeafChain pages level leaves) :
    Chained pages (nextOf level) (level.map PageSummary.pageId) := by
  induction level generalizing leaves with
  | nil => exact nextOf_nil
  | cons s level ih =>
    obtain ⟨leaf, rest, -, -, hleaf, hrest⟩ := LeafChain.cons_iff.mp h
    refine ⟨nextOf_cons s level, ?_, ?_⟩
    · rw [leafOf_of_holdsLeaf hleaf]
      rfl
    · rw [hleaf.next]
      exact ih hrest

theorem LeafChain.chainEntries {pages : Nat → Page} {level : List PageSummary}
    {leaves : List (List IndexEntry)} (h : LeafChain pages level leaves) :
    IndexFile.chainEntries pages (level.map PageSummary.pageId) = leaves.flatten := by
  induction level generalizing leaves with
  | nil =>
    cases leaves with
    | nil => rfl
    | cons leaf leaves => exact h.elim
  | cons s level ih =>
    obtain ⟨leaf, rest, rfl, -, hleaf, hrest⟩ := LeafChain.cons_iff.mp h
    have hrest := ih hrest
    rw [IndexFile.chainEntries] at hrest ⊢
    rw [List.map_cons, List.flatMap_cons, hrest, leafOf_of_holdsLeaf hleaf]
    rfl

section

variable {f : IndexFile} {levels p : Nat} {root : PageSummary} {leaves : List PageSummary}

theorem Built.ends (h : Built f levels root leaves) :
    1 ≤ f.rootPageId ∧ f.pageCount = f.rootPageId + 1 :=
  ⟨h.grown.positive, h.grown.ends.symm⟩

theorem Built.nextOf_eq (h : Built f levels root leaves) : nextOf leaves = 1 := by
  have hchain := h.chain
  have hids := h.ids
  cases leaves with
  | nil =>
    cases hcut : splitLeafEntries f.entries with
    | nil => exact absurd hcut h.cut
    | cons leaf rest =>
      rw [hcut] at hchain
      exact hchain.elim
  | cons s leaves => exact (List.cons.inj hids).1

/-- The leaves are the first pages behind the header. -/
theorem Built.isSome_leafOf (h : Built f levels root leaves) (hp : 1 ≤ p) (hlt : p < f.pageCount) :
    (leafOf (f.pages p)).isSome ↔ p ∈ leaves.map PageSummary.pageId := by
  rw [h.ids, List.mem_range'_1]
  constructor
  · intro hleaf
    refine ⟨hp, ?_⟩
    by_contra hover
    obtain ⟨children, hchildren⟩ := Option.isSome_iff_exists.mp (h.grown.inner p (by omega) hlt)
    rw [leafOf_of_childrenOf hchildren] at hleaf
    cases hleaf
  · intro hbounds
    have hin : p ∈ leaves.map PageSummary.pageId := by
      rw [h.ids]
      exact List.mem_range'_1.mpr hbounds
    obtain ⟨s, hs, rfl⟩ := List.mem_map.mp hin
    obtain ⟨leaf, -, -, hleaf⟩ := h.chain.mem hs
    rw [hleaf]
    rfl

/-- A page that is not the root is a child of a later page. -/
theorem Built.parent (h : Built f levels root leaves) (hp : 1 ≤ p) (hlt : p < f.pageCount)
    (hroot : p ≠ f.rootPageId) :
    ∃ q, p < q ∧ q < f.pageCount ∧ p ∈ childIds (f.pages q) := by
  have hlast := h.ends.2
  have hin : p ∈ (List.range' 1 (f.pageCount - 1)).flatMap fun q => childIds (f.pages q) := by
    rw [h.grown.children]
    exact List.mem_range'_1.mpr ⟨hp, by omega⟩
  obtain ⟨q, hq, hchild⟩ := List.mem_flatMap.mp hin
  have hbounds := List.mem_range'_1.mp hq
  obtain ⟨height, key, hsub⟩ := h.grown.below q hbounds.1 (by omega)
  obtain ⟨below, keyBelow, -, hbefore, -⟩ := hsub.of_child hchild
  exact ⟨q, hbefore, by omega, hchild⟩

/-- Each page is reached from the root. -/
theorem Built.reached (h : Built f levels root leaves) (hp : 1 ≤ p) (hlt : p < f.pageCount) :
    ∃ d, AtDepth f p d := by
  -- from the root down to page 1
  induction hbelow : f.pageCount - p using Nat.strong_induction_on generalizing p with
  | _ n ih =>
    by_cases hroot : p = f.rootPageId
    · exact ⟨1, hroot ▸ .root⟩
    · obtain ⟨q, hbefore, hq, hchild⟩ := h.parent hp hlt hroot
      obtain ⟨d, hd⟩ := ih (f.pageCount - q) (by omega) (by omega) hq rfl
      exact ⟨d + 1, hd.child hchild⟩

/-- The levels above a page and those below it are all levels. -/
theorem Built.height_of_atDepth {d : Nat} (h : Built f levels root leaves) (hd : AtDepth f p d) :
    ∃ height key, Subtree f.pages height p key ∧ d + height = levels + 1 := by
  induction hd with
  | root =>
    have hsub := h.grown.top root List.mem_cons_self
    rw [h.top] at hsub
    exact ⟨levels, root.firstKey, hsub, Nat.add_comm 1 levels⟩
  | child _ hchild ih =>
    obtain ⟨height, key, hsub, hsum⟩ := ih
    obtain ⟨below, keyBelow, rfl, -, hbelow⟩ := hsub.of_child hchild
    exact ⟨below, keyBelow, hbelow, by omega⟩

theorem Built.atDepth_iff (h : Built f levels root leaves) (hp : 1 ≤ p) (hlt : p < f.pageCount)
    (hleaf : (leafOf (f.pages p)).isSome) (d : Nat) : AtDepth f p d ↔ d = levels := by
  have hdepth : ∀ d, AtDepth f p d → d = levels := by
    intro d hd
    obtain ⟨height, key, hsub, hsum⟩ := h.height_of_atDepth hd
    rw [hsub.height_of_leafOf hleaf] at hsum
    exact Nat.add_right_cancel hsum
  constructor
  · exact hdepth d
  · rintro rfl
    obtain ⟨d, hd⟩ := h.reached hp hlt
    rwa [hdepth d hd] at hd

/-- The tree is well formed exactly if the header has the number of its levels. -/
theorem Built.wellFormed_iff (h : Built f levels root leaves) :
    f.WellFormed ↔ f.treeHeight = levels := by
  have hlast := h.ends.2
  have hfirst := h.nextOf_eq
  constructor
  · intro hw
    have hbounds := h.ends
    have hchained := h.chain.chained
    -- page 1 is a leaf
    have hleaf : (leafOf (f.pages 1)).isSome := by
      cases leaves with
      | nil =>
        rw [nextOf_nil] at hfirst
        exact absurd hfirst (by decide)
      | cons s leaves =>
        rw [nextOf_cons] at hfirst
        rw [← hfirst]
        exact hchained.2.1
    have hone := (h.atDepth_iff (Nat.le_refl 1) (by omega) hleaf levels).mpr rfl
    exact ((hw.depth 1 (Nat.le_refl 1) (by omega) hleaf levels).mp hone).symm
  · intro hheight
    refine ⟨⟨h.ends.1, by omega⟩, ?_, ?_, ?_, ?_, ?_⟩
    · intro p hp hlt hroot
      rw [h.grown.children]
      exact List.count_eq_one_of_mem List.nodup_range' (List.mem_range'_1.mpr ⟨hp, by omega⟩)
    · intro p hp hlt
      obtain ⟨height, key, hsub⟩ := h.grown.below p hp hlt
      cases hsub with
      | leaf hleaf hsize => exact .inl ⟨_, hleaf, hsize⟩
      | inner hchildren hsize _ _ _ => exact .inr ⟨_, hchildren, hsize⟩
    · intro p hp hlt hleaf d
      rw [hheight]
      exact h.atDepth_iff hp hlt hleaf d
    · intro p hp hlt children hchildren
      obtain ⟨height, key, hsub⟩ := h.grown.below p hp hlt
      cases hsub with
      | leaf hleaf _ =>
        rw [childrenOf_of_leafOf hleaf] at hchildren
        cases hchildren
      | inner hown _ hsorted _ hsubs =>
        rw [hown] at hchildren
        cases hchildren
        exact ⟨fun c hc => (hsubs c hc).firstKey, hsorted⟩
    · refine ⟨leaves.map PageSummary.pageId, ?_, ?_, ?_, fun p hp hlt => h.isSome_leafOf hp hlt⟩
      · have hchained := h.chain.chained
        rwa [hfirst] at hchained
      · rw [h.ids]
        exact List.nodup_range'
      · rw [h.chain.chainEntries, flatten_splitLeafEntries h.cut]

end

/-- The pages that `write_pages` writes, fewer than `2 ^ 32`, are a well-formed tree exactly if it
has fewer than `2 ^ 16` levels. -/
theorem written_tree_iff {fuel : Nat} {f g : IndexFile} (h : writePages fuel f = some g)
    (hsorted : Sorted f.entries) (hsmall : g.Numbered) :
    g.WellFormed ↔ ∀ levels pages, TreeOf f.entries levels pages → levels < 2 ^ 16 := by
  obtain ⟨levels, pages, root, leaves, htree, hheight, hbuilt⟩ :=
    built_of_writePages h hsorted hsmall
  rw [hbuilt.wellFormed_iff, hheight]
  constructor
  · intro hsame levels' pages' htree'
    obtain ⟨rfl, -⟩ := htree.unique htree'
    rw [← hsame]
    exact Nat.mod_lt _ (Nat.two_pow_pos 16)
  · intro hfew
    exact Nat.mod_eq_of_lt (hfew levels pages htree)

/-- A root over two leaves. -/
theorem written_tree_twoEntries :
    ∃ fuel g, writePages fuel (twoEntries 2038) = some g ∧ g.WellFormed := by
  have hlengths : leafKeyLengths (twoEntries 2038).entries = [2038, 2038] :=
    leafKeyLengths_twoEntries (by decide) (by decide)
  have htree : TreeOf (twoEntries 2038).entries 2 3 := by
    rw [TreeOf, hlengths]
    exact .level (by decide) (.top (by decide))
  have hcut : splitLeafEntries (twoEntries 2038).entries ≠ [] := by
    intro hnil
    rw [leafKeyLengths, hnil] at hlengths
    cases hlengths
  have hsorted : Sorted (twoEntries 2038).entries := by
    refine List.pairwise_pair.mpr (IndexEntry.lt_iff.mpr (.inr ⟨rfl, .inr ⟨rfl, ?_⟩⟩))
    exact Nat.zero_lt_one
  obtain ⟨fuel, g, hwrite⟩ := returns_of_treeOf hcut htree
  have hsmall : g.Numbered := by
    obtain ⟨levels, pages, htree', hcount, -⟩ := treeOf_of_writePages hwrite
    obtain ⟨-, rfl⟩ := htree.unique htree'
    rw [Numbered, hcount]
    omega
  refine ⟨fuel, g, hwrite, (written_tree_iff hwrite hsorted hsmall).mpr ?_⟩
  intro levels pages htree'
  obtain ⟨rfl, -⟩ := htree.unique htree'
  omega

/-- The leaves below 65536 levels are not at the depth 0 that the header has. -/
theorem tall_tree_misshapen : ¬ ∀ (fuel : Nat) (f g : IndexFile), Sorted f.entries →
    writePages fuel f = some g → g.WellFormed := by
  intro h
  obtain ⟨f, hruns, hentries⟩ := @runs_tallLog 65535 (by decide)
  have hwritten := (lists_of_runs hruns).written
  obtain ⟨total, htree, hsum⟩ := treeOf_tallEntries 65535
  rw [← hentries] at htree
  obtain ⟨fuel, g, hwrite⟩ := returns_of_treeOf hwritten.leaves htree
  have hsmall : g.Numbered := by
    obtain ⟨levels, pages, htree', hcount, -⟩ := treeOf_of_writePages hwrite
    obtain ⟨-, rfl⟩ := htree.unique htree'
    rw [Numbered, hcount]
    omega
  obtain ⟨levels, pages, root, leaves, htree', hheight, hbuilt⟩ :=
    built_of_writePages hwrite hwritten.sorted hsmall
  obtain ⟨rfl, -⟩ := htree.unique htree'
  have hsame := hbuilt.wellFormed_iff.mp (h fuel f g hwritten.sorted hwrite)
  rw [hheight] at hsame
  exact absurd hsame (by decide)

end IndexFile

end ScratchDb
