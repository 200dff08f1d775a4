import ScratchDb.Indexes.IndexFile
import ScratchDb.Lib.SearchTree

/-!
# What `write_pages` leaves in the file

The leaf and inner pages are read back as they were written, the leaves are
chained in order, and the inner pages lead down to them from the root. This
holds of an index file after every flush, and makes `load` restore it.
-/

namespace ScratchDb

open LittleEndian

/-! ## Pages read back -/

namespace Page

theorem readUint_copy_of_disjoint (p : Page) {offset : Nat} {bytes : Bytes} {offset' size : Nat}
    (h : offset' + size ≤ offset ∨ offset + bytes.length ≤ offset') :
    (p.copy offset bytes).readUint offset' size = p.readUint offset' size := by
  rw [readUint, slice_copy_of_disjoint p h, readUint]

/-- The pages agree before `offset`. -/
def AgreeBefore (p q : Page) (offset : Nat) : Prop := ∀ i, i < offset → p.get i = q.get i

theorem AgreeBefore.readUint {p q : Page} {offset o size : Nat} (h : p.AgreeBefore q offset)
    (hle : o + size ≤ offset) : p.readUint o size = q.readUint o size :=
  readUint_congr fun i _ hi => h i (by omega)

theorem AgreeBefore.slice {p q : Page} {offset o size : Nat} (h : p.AgreeBefore q offset)
    (hle : o + size ≤ offset) : p.slice o size = q.slice o size :=
  slice_congr fun i _ hi => h i (by omega)

end Page

namespace IndexFile

/-- An entry written at `offset`. -/
def putEntry (page : Page) (offset : Nat) (entry : IndexEntry) : Page :=
  (((page.writeUint offset 2 entry.key.length).writeUint (offset + 2) 4
    entry.recordId.pageId).writeUint (offset + 6) 2 entry.recordId.slotId).copy
      (offset + entryHeaderSize) entry.key

/-- A child written at `offset`. -/
def putChild (page : Page) (offset : Nat) (child : PageSummary) : Page :=
  ((page.writeUint offset 4 child.pageId).writeUint (offset + 4) 2 child.firstKey.length).copy
    (offset + internalChildHeaderSize) child.firstKey

theorem agreeBefore_putEntry (page : Page) (offset : Nat) (entry : IndexEntry) :
    (putEntry page offset entry).AgreeBefore page offset := by
  have h8 : entryHeaderSize = 8 := rfl
  intro i hi
  rw [putEntry, Page.get_copy_of_outside _ (by omega), Page.get_writeUint_of_outside _ (by omega),
    Page.get_writeUint_of_outside _ (by omega), Page.get_writeUint_of_outside _ (by omega)]

theorem agreeBefore_putChild (page : Page) (offset : Nat) (child : PageSummary) :
    (putChild page offset child).AgreeBefore page offset := by
  have h6 : internalChildHeaderSize = 6 := rfl
  intro i hi
  rw [putChild, Page.get_copy_of_outside _ (by omega), Page.get_writeUint_of_outside _ (by omega),
    Page.get_writeUint_of_outside _ (by omega)]

theorem agreeBefore_writeEntries {page q : Page} {offset : Nat} {es : List IndexEntry}
    (h : writeEntries page offset es = some q) : q.AgreeBefore page offset := by
  induction es generalizing page offset with
  | nil =>
    rw [writeEntries, Option.some.injEq] at h
    exact fun i _ => by rw [h]
  | cons e es ih =>
    rw [writeEntries] at h
    split at h
    · cases h
    · intro i hi
      exact (ih h i (by omega)).trans (agreeBefore_putEntry page offset e i hi)

theorem agreeBefore_writeChildren {page q : Page} {offset : Nat} {cs : List PageSummary}
    (h : writeChildren page offset cs = some q) : q.AgreeBefore page offset := by
  induction cs generalizing page offset with
  | nil =>
    rw [writeChildren, Option.some.injEq] at h
    exact fun i _ => by rw [h]
  | cons c cs ih =>
    rw [writeChildren] at h
    split at h
    · cases h
    · intro i hi
      exact (ih h i (by omega)).trans (agreeBefore_putChild page offset c i hi)

/-- The loops over a leaf meet the entries that were written to it. -/
theorem readEntries_writeEntries {page q : Page} {offset : Nat} {es : List IndexEntry}
    (h : writeEntries page offset es = some q) :
    readEntries q es.length offset = es.map some := by
  have h8 : entryHeaderSize = 8 := rfl
  induction es generalizing page offset with
  | nil => rfl
  | cons e es ih =>
    rw [writeEntries] at h
    split at h
    · cases h
    rename_i hroom
    rw [not_or, not_lt, not_lt] at hroom
    have hlen : e.key.length < 256 ^ 2 := by
      have : uint16Max = 65535 := rfl
      omega
    have hagree := agreeBefore_writeEntries h
    change q.AgreeBefore (putEntry page offset e) _ at hagree
    have hsize : q.readUint offset 2 = e.key.length := by
      rw [hagree.readUint (by omega), putEntry, Page.readUint_copy_of_disjoint _ (by omega),
        Page.readUint_writeUint_of_disjoint _ (by omega),
        Page.readUint_writeUint_of_disjoint _ (by omega),
        Page.readUint_writeUint_self _ hlen (by omega)]
    have hpage : q.readUint (offset + 2) 4 = e.recordId.pageId := by
      rw [hagree.readUint (by omega), putEntry, Page.readUint_copy_of_disjoint _ (by omega),
        Page.readUint_writeUint_of_disjoint _ (by omega),
        Page.readUint_writeUint_self _ e.fits.1 (by omega)]
    have hslot : q.readUint (offset + 6) 2 = e.recordId.slotId := by
      rw [hagree.readUint (by omega), putEntry, Page.readUint_copy_of_disjoint _ (by omega),
        Page.readUint_writeUint_self _ e.fits.2 (by omega)]
    have hkey : q.slice (offset + entryHeaderSize) e.key.length = e.key := by
      rw [hagree.slice (by omega), putEntry, Page.slice_copy_self _ (by omega)]
    rw [List.length_cons, readEntries, if_neg (by omega)]
    simp only [hsize, hpage, hslot, hkey]
    rw [if_neg (by omega), ih h, List.map_cons]

/-- The loop over an inner page meets the children that were written to it. -/
theorem readChildren_writeChildren {page q : Page} {offset : Nat} {cs : List PageSummary}
    (h : writeChildren page offset cs = some q) (hids : ∀ c ∈ cs, c.pageId < 2 ^ 32) :
    readChildren q cs.length offset = cs.map some := by
  have h6 : internalChildHeaderSize = 6 := rfl
  induction cs generalizing page offset with
  | nil => rfl
  | cons c cs ih =>
    rw [writeChildren] at h
    split at h
    · cases h
    rename_i hroom
    rw [not_or, not_lt, not_lt] at hroom
    have hlen : c.firstKey.length < 256 ^ 2 := by
      have : uint16Max = 65535 := rfl
      omega
    have hagree := agreeBefore_writeChildren h
    change q.AgreeBefore (putChild page offset c) _ at hagree
    have hsize : q.readUint (offset + 4) 2 = c.firstKey.length := by
      rw [hagree.readUint (by omega), putChild, Page.readUint_copy_of_disjoint _ (by omega),
        Page.readUint_writeUint_self _ hlen (by omega)]
    have hpage : q.readUint offset 4 = c.pageId := by
      rw [hagree.readUint (by omega), putChild, Page.readUint_copy_of_disjoint _ (by omega),
        Page.readUint_writeUint_of_disjoint _ (by omega),
        Page.readUint_writeUint_self _ (hids c (List.mem_cons_self ..)) (by omega)]
    have hkey : q.slice (offset + internalChildHeaderSize) c.firstKey.length = c.firstKey := by
      rw [hagree.slice (by omega), putChild, Page.slice_copy_self _ (by omega)]
    rw [List.length_cons, readChildren, if_neg (by omega)]
    simp only [hsize, hpage, hkey]
    rw [if_neg (by omega), ih h fun c hc => hids c (List.mem_cons_of_mem _ hc), List.map_cons]

theorem room_of_writeEntries {page q : Page} {offset : Nat} {es : List IndexEntry}
    (h : writeEntries page offset es = some q) (hoffset : offset ≤ pageSize) :
    offset + entryHeaderSize * es.length ≤ pageSize := by
  induction es generalizing page offset with
  | nil => simpa using hoffset
  | cons e es ih =>
    rw [writeEntries] at h
    split at h
    · cases h
    · have := ih h (by omega)
      rw [List.length_cons, Nat.mul_add]
      omega

theorem room_of_writeChildren {page q : Page} {offset : Nat} {cs : List PageSummary}
    (h : writeChildren page offset cs = some q) (hoffset : offset ≤ pageSize) :
    offset + internalChildHeaderSize * cs.length ≤ pageSize := by
  induction cs generalizing page offset with
  | nil => simpa using hoffset
  | cons c cs ih =>
    rw [writeChildren] at h
    split at h
    · cases h
    · have := ih h (by omega)
      rw [List.length_cons, Nat.mul_add]
      omega

/-! ## Pages of each type -/

theorem readUint_typedPage (pageType : UInt8) :
    (typedPage pageType).readUint 0 4 = indexMagic := by
  rw [typedPage, Page.readUint_copy_of_disjoint _ (.inl (by decide)),
    Page.readUint_writeUint_self _ (by decide) (by decide)]

theorem get_typedPage (pageType : UInt8) : (typedPage pageType).get 4 = pageType := by
  have hsize : pageSize = 4096 := rfl
  rw [typedPage, Page.get_copy, if_pos ⟨Nat.le_refl 4, Nat.lt_succ_self 4, by omega⟩]
  rfl

/-- The page is a leaf with these entries, before the leaf `nextPageId`. -/
structure HoldsLeaf (p : Page) (nextPageId : Nat) (leaf : List IndexEntry) : Prop where
  magic : p.readUint 0 4 = indexMagic
  pageType : p.get 4 = pageTypeLeaf
  next : p.readUint 5 4 = nextPageId
  entries : leafEntries p = leaf.map some

theorem holdsLeaf_of_leafPage {p : Page} {nextPageId : Nat} {leaf : List IndexEntry}
    (h : leafPage nextPageId leaf = some p) (hnext : nextPageId < 2 ^ 32) :
    HoldsLeaf p nextPageId leaf := by
  have h12 : leafHeaderSize = 12 := rfl
  have hsize : pageSize = 4096 := rfl
  have hagree := agreeBefore_writeEntries h
  have hroom := room_of_writeEntries h (by omega)
  have hlen : leaf.length < 256 ^ 2 := by
    have h8 : entryHeaderSize = 8 := rfl
    rw [h8] at hroom
    omega
  have hcount : p.readUint 9 2 = leaf.length := by
    rw [hagree.readUint (by omega), Page.readUint_writeUint_self _ hlen (by omega)]
  constructor
  · rw [hagree.readUint (by omega), Page.readUint_writeUint_of_disjoint _ (by omega),
      Page.readUint_writeUint_of_disjoint _ (by omega), readUint_typedPage]
  · rw [hagree 4 (by omega), Page.get_writeUint_of_outside _ (by omega),
      Page.get_writeUint_of_outside _ (by omega), get_typedPage]
  · rw [hagree.readUint (by omega), Page.readUint_writeUint_of_disjoint _ (by omega),
      Page.readUint_writeUint_self _ hnext (by omega)]
  · rw [leafEntries, hcount, readEntries_writeEntries h]

/-- The page is an inner page with these children. -/
structure HoldsChildren (p : Page) (children : List PageSummary) : Prop where
  magic : p.readUint 0 4 = indexMagic
  pageType : p.get 4 = pageTypeInternal
  count : p.readUint 5 2 = children.length
  children : readChildren p children.length internalHeaderSize = children.map some

theorem holdsChildren_of_internalPage {p : Page} {children : List PageSummary}
    (h : internalPage children = some p) (hids : ∀ c ∈ children, c.pageId < 2 ^ 32) :
    HoldsChildren p children := by
  have h7 : internalHeaderSize = 7 := rfl
  have hsize : pageSize = 4096 := rfl
  have hagree := agreeBefore_writeChildren h
  have hroom := room_of_writeChildren h (by omega)
  have hlen : children.length < 256 ^ 2 := by
    have h6 : internalChildHeaderSize = 6 := rfl
    rw [h6] at hroom
    omega
  constructor
  · rw [hagree.readUint (by omega), Page.readUint_writeUint_of_disjoint _ (by omega),
      readUint_typedPage]
  · rw [hagree 4 (by omega), Page.get_writeUint_of_outside _ (by omega), get_typedPage]
  · rw [hagree.readUint (by omega), Page.readUint_writeUint_self _ hlen (by omega)]
  · exact readChildren_writeChildren h hids

/-- The page is the header of a file with this root, page count and height. -/
structure HoldsHeader (p : Page) (rootPageId pageCount treeHeight : Nat) : Prop where
  magic : p.readUint 0 4 = indexMagic
  pageType : p.get 4 = pageTypeHeader
  version : p.readUint 5 2 = indexVersion
  root : p.readUint 7 4 = rootPageId
  count : p.readUint 11 4 = pageCount
  height : p.readUint 15 2 = treeHeight

theorem holdsHeader_headerPage {rootPageId pageCount treeHeight : Nat} (hroot : rootPageId < 2 ^ 32)
    (hcount : pageCount < 2 ^ 32) (hheight : treeHeight < 2 ^ 16) :
    HoldsHeader (headerPage rootPageId pageCount treeHeight) rootPageId pageCount treeHeight := by
  have hsize : pageSize = 4096 := rfl
  unfold headerPage
  constructor
  · rw [Page.readUint_writeUint_of_disjoint _ (by omega),
      Page.readUint_writeUint_of_disjoint _ (by omega),
      Page.readUint_writeUint_of_disjoint _ (by omega),
      Page.readUint_writeUint_of_disjoint _ (by omega), readUint_typedPage]
  · rw [Page.get_writeUint_of_outside _ (by omega), Page.get_writeUint_of_outside _ (by omega),
      Page.get_writeUint_of_outside _ (by omega), Page.get_writeUint_of_outside _ (by omega),
      get_typedPage]
  · rw [Page.readUint_writeUint_of_disjoint _ (by omega),
      Page.readUint_writeUint_of_disjoint _ (by omega),
      Page.readUint_writeUint_of_disjoint _ (by omega),
      Page.readUint_writeUint_self _ (by decide) (by omega)]
  · rw [Page.readUint_writeUint_of_disjoint _ (by omega),
      Page.readUint_writeUint_of_disjoint _ (by omega),
      Page.readUint_writeUint_self _ hroot (by omega)]
  · rw [Page.readUint_writeUint_of_disjoint _ (by omega),
      Page.readUint_writeUint_self _ hcount (by omega)]
  · rw [Page.readUint_writeUint_self _ hheight (by omega)]

/-! ## The leaves -/

/-- The page that a leaf names as the next. -/
def nextOf (level : List PageSummary) : Nat := (level.head?.map PageSummary.pageId).getD noPage

@[simp] theorem nextOf_nil : nextOf [] = noPage := rfl

@[simp] theorem nextOf_cons (s : PageSummary) (level : List PageSummary) :
    nextOf (s :: level) = s.pageId := rfl

/-- The pages of `level` are leaves with these entries, chained in order. -/
def LeafChain (pages : Nat → Page) : List PageSummary → List (List IndexEntry) → Prop
  | [], [] => True
  | s :: level, leaf :: leaves => s.firstKey = firstKey leaf ∧
      HoldsLeaf (pages s.pageId) (nextOf level) leaf ∧ LeafChain pages level leaves
  | _, _ => False

theorem LeafChain.congr {pages pages' : Nat → Page} {level : List PageSummary}
    {leaves : List (List IndexEntry)} (h : LeafChain pages level leaves)
    (hsame : ∀ s ∈ level, pages' s.pageId = pages s.pageId) : LeafChain pages' level leaves := by
  induction level generalizing leaves with
  | nil =>
    cases leaves with
    | nil => trivial
    | cons leaf leaves => exact h.elim
  | cons s level ih =>
    cases leaves with
    | nil => exact h.elim
    | cons leaf leaves =>
      refine ⟨h.1, ?_, ih h.2.2 fun c hc => hsame c (List.mem_cons_of_mem _ hc)⟩
      rw [hsame s (List.mem_cons_self ..)]
      exact h.2.1

/-- What `writeLeaves` has done. -/
structure LeavesWritten (pages pages' : Nat → Page) (pageId : Nat)
    (leaves : List (List IndexEntry)) (level : List PageSummary) : Prop where
  chain : LeafChain pages' level leaves
  ids : ∀ s ∈ level, pageId ≤ s.pageId ∧ s.pageId < pageId + leaves.length
  first : nextOf level = if leaves.isEmpty then noPage else pageId
  length : level.length = leaves.length
  frame : ∀ k < pageId, pages' k = pages k

theorem leavesWritten_of_writeLeaves {pages pages' : Nat → Page} {pageId : Nat}
    {leaves : List (List IndexEntry)} {level : List PageSummary}
    (h : writeLeaves pages pageId leaves = some (pages', level))
    (hroom : pageId + leaves.length < 2 ^ 32) :
    LeavesWritten pages pages' pageId leaves level := by
  induction leaves generalizing pages pageId level with
  | nil =>
    rw [writeLeaves, Option.some.injEq, Prod.mk.injEq] at h
    obtain ⟨rfl, rfl⟩ := h
    exact ⟨trivial, by simp, rfl, rfl, fun _ _ => rfl⟩
  | cons leaf leaves ih =>
    rw [List.length_cons] at hroom
    simp only [writeLeaves, Option.bind_eq_bind, Option.bind_eq_some_iff, Option.some.injEq,
      Prod.mk.injEq] at h
    obtain ⟨page, hpage, ⟨pages'', level'⟩, hrest, rfl, rfl⟩ := h
    have hw := ih hrest (by omega)
    have hnext : (if leaves.isEmpty then noPage else pageId + 1) < 2 ^ 32 := by
      have : noPage = 2 ^ 32 - 1 := rfl
      split <;> omega
    have hleaf := holdsLeaf_of_leafPage hpage hnext
    refine ⟨⟨rfl, ?_, hw.chain⟩, ?_, rfl, by simp [hw.length], fun k hk => ?_⟩
    · rw [hw.first, hw.frame pageId (by omega), Function.update_self]
      exact hleaf
    · intro s hs
      rw [List.length_cons]
      rcases List.mem_cons.mp hs with rfl | hs
      · dsimp only
        omega
      · have := hw.ids s hs
        omega
    · rw [hw.frame k (by omega), Function.update_of_ne (by omega)]

/-! ## The inner levels -/

/-- The children of a page behind the header from which `find_leaf_page` goes on. -/
def innerNode (pages : Nat → Page) (pageCount pageId : Nat) :
    Option (PageSummary × List PageSummary) :=
  let page := pages pageId
  if pageId = 0 ∨ pageId = noPage ∨ pageCount ≤ pageId ∨ page.readUint 0 4 ≠ indexMagic ∨
      page.get 4 ≠ pageTypeInternal then none
  else
    match (readChildren page (page.readUint 5 2) internalHeaderSize).mapM id with
    | some (child :: children) => some (child, children)
    | _ => none

theorem mapM_id_map_some {α : Type} (l : List α) : (l.map some).mapM id = some l := by
  induction l with
  | nil => rfl
  | cons a l ih => simp [List.mapM_cons, ih]

theorem innerNode_of_holdsChildren {pages : Nat → Page} {pageCount pageId : Nat}
    {g : SearchTree.Group PageSummary} (h : HoldsChildren (pages pageId) g.all)
    (hpos : 0 < pageId) (hcount : pageId < pageCount) (hsmall : pageCount < 2 ^ 32) :
    innerNode pages pageCount pageId = some (g.child, g.children) := by
  have hno : noPage = 2 ^ 32 - 1 := rfl
  have hgo : ¬(pageId = 0 ∨ pageId = noPage ∨ pageCount ≤ pageId ∨
      (pages pageId).readUint 0 4 ≠ indexMagic ∨ (pages pageId).get 4 ≠ pageTypeInternal) := by
    rw [not_or, not_or, not_or, not_or]
    exact ⟨by omega, by omega, by omega, not_not.mpr h.magic, not_not.mpr h.pageType⟩
  rw [innerNode, if_neg hgo, h.count, h.children, mapM_id_map_some]
  rfl

/-- What `writeGroups` has done, with the inner pages as the groups `gs`. -/
structure GroupsWritten (pages pages' : Nat → Page) (nextPageId : Nat)
    (groups : List (List PageSummary)) (level : List PageSummary)
    (gs : List (SearchTree.Group PageSummary)) : Prop where
  all : gs.map SearchTree.Group.all = groups
  summaries : gs.map SearchTree.Group.summary = level
  sep : ∀ g ∈ gs, g.summary.firstKey = g.child.firstKey
  holds : ∀ g ∈ gs, HoldsChildren (pages' g.summary.pageId) g.all
  ids : ∀ g ∈ gs, nextPageId ≤ g.summary.pageId ∧
    g.summary.pageId < nextPageId + groups.length
  frame : ∀ k < nextPageId, pages' k = pages k

theorem groupsWritten_of_writeGroups {pages pages' : Nat → Page} {nextPageId : Nat}
    {groups : List (List PageSummary)} {level : List PageSummary}
    (h : writeGroups pages nextPageId groups = some (pages', level))
    (hne : ∀ g ∈ groups, g ≠ []) (hids : ∀ g ∈ groups, ∀ c ∈ g, c.pageId < 2 ^ 32) :
    ∃ gs, GroupsWritten pages pages' nextPageId groups level gs := by
  induction groups generalizing pages nextPageId level with
  | nil =>
    rw [writeGroups, Option.some.injEq, Prod.mk.injEq] at h
    obtain ⟨rfl, rfl⟩ := h
    exact ⟨[], rfl, rfl, by simp, by simp, by simp, fun _ _ => rfl⟩
  | cons children groups ih =>
    simp only [writeGroups, Option.bind_eq_bind, Option.bind_eq_some_iff, Option.some.injEq,
      Prod.mk.injEq] at h
    obtain ⟨page, hpage, ⟨pages'', level'⟩, hrest, rfl, rfl⟩ := h
    obtain ⟨gs, hw⟩ := ih hrest (fun g hg => hne g (List.mem_cons_of_mem _ hg))
      (fun g hg => hids g (List.mem_cons_of_mem _ hg))
    have hholds := holdsChildren_of_internalPage hpage (hids children (List.mem_cons_self ..))
    cases children with
    | nil => exact absurd rfl (hne [] (List.mem_cons_self ..))
    | cons child children =>
      refine ⟨⟨⟨nextPageId, child.firstKey⟩, child, children⟩ :: gs, ?_, ?_, ?_, ?_, ?_, ?_⟩
      · rw [List.map_cons, hw.all]
        rfl
      · rw [List.map_cons, hw.summaries]
        rfl
      · intro g hg
        rcases List.mem_cons.mp hg with rfl | hg
        · rfl
        · exact hw.sep g hg
      · intro g hg
        rcases List.mem_cons.mp hg with rfl | hg
        · rw [hw.frame _ (Nat.lt_succ_self _), Function.update_self]
          exact hholds
        · exact hw.holds g hg
      · intro g hg
        rw [List.length_cons]
        rcases List.mem_cons.mp hg with rfl | hg
        · dsimp only
          omega
        · have := hw.ids g hg
          omega
      · intro k hk
        rw [hw.frame k (by omega), Function.update_of_ne (by omega)]

theorem flatten_filter_nonempty {α : Type} (gs : List (List α)) :
    (gs.filter fun g => !g.isEmpty).flatten = gs.flatten := by
  induction gs with
  | nil => rfl
  | cons g gs ih =>
    cases g with
    | nil => simpa using ih
    | cons a g => simp [ih]

theorem flatten_internalGroups (level : List PageSummary) :
    (internalGroups level).flatten = level := by
  rw [internalGroups, flatten_filter_nonempty, Packing.flatten_pack]

theorem ne_nil_of_mem_internalGroups {level g : List PageSummary} (h : g ∈ internalGroups level) :
    g ≠ [] := by
  simpa using (List.mem_filter.mp h).2

/-- What the loop over the levels has done. -/
structure LevelsWritten (s s' : Levels) (n : Nat) (root : PageSummary) : Prop where
  top : s'.level = [root]
  layers : SearchTree.Layers PageSummary.pageId (innerNode s'.pages s'.nextPageId)
    PageSummary.firstKey n s.level root.pageId
  root : root.pageId < s'.nextPageId
  height : s'.treeHeight < 2 ^ 16
  rounds : s.nextPageId + n ≤ s'.nextPageId
  frame : ∀ k < s.nextPageId, s'.pages k = s.pages k

theorem nextPageId_le_of_writeLevels {fuel : Nat} {s s' : Levels}
    (h : writeLevels fuel s = some s') : s.nextPageId ≤ s'.nextPageId := by
  induction fuel generalizing s with
  | zero => cases h
  | succ fuel ih =>
    rw [writeLevels] at h
    split at h
    · rw [Option.some.injEq] at h
      rw [h]
    · simp only [Option.bind_eq_bind, Option.bind_eq_some_iff] at h
      obtain ⟨⟨pages, level⟩, -, hrest⟩ := h
      have := ih hrest
      dsimp only at this
      omega

theorem levelsWritten_of_writeLevels {fuel : Nat} {s s' : Levels}
    (h : writeLevels fuel s = some s') (hne : s.level ≠ []) (hpos : 0 < s.nextPageId)
    (hids : ∀ c ∈ s.level, c.pageId < s.nextPageId) (hheight : s.treeHeight < 2 ^ 16)
    (hsmall : s'.nextPageId < 2 ^ 32) : ∃ n root, LevelsWritten s s' n root := by
  induction fuel generalizing s with
  | zero => cases h
  | succ fuel ih =>
    have hmono := nextPageId_le_of_writeLevels h
    rw [writeLevels] at h
    split at h
    · rename_i hlen
      rw [Option.some.injEq] at h
      subst h
      -- the only page of the level is the root
      obtain ⟨root, hroot⟩ : ∃ root, s.level = [root] :=
        List.length_eq_one_iff.mp (Nat.le_antisymm hlen (List.length_pos_iff.mpr hne))
      refine ⟨0, root, hroot, hroot ▸ .root root, ?_, hheight, Nat.le_refl _, fun _ _ => rfl⟩
      exact hids root (by simp [hroot])
    · simp only [Option.bind_eq_bind, Option.bind_eq_some_iff] at h
      obtain ⟨⟨pages, level⟩, hgroups, hrest⟩ := h
      have hflat := flatten_internalGroups s.level
      obtain ⟨gs, hw⟩ := groupsWritten_of_writeGroups hgroups
        (fun g hg => ne_nil_of_mem_internalGroups hg) fun g hg c hc => by
          have hmem : c ∈ s.level := by
            rw [← hflat]
            exact List.mem_flatten.mpr ⟨g, hg, hc⟩
          have := hids c hmem
          omega
      have hall : gs.flatMap SearchTree.Group.all = s.level := by
        rw [List.flatMap_def, hw.all, hflat]
      have hle := nextPageId_le_of_writeLevels hrest
      dsimp only at hle
      obtain ⟨n, root, hrec⟩ := ih hrest
        (by
          rintro hnil
          rw [← hw.summaries, List.map_eq_nil_iff] at hnil
          exact hne (by rw [← hall, hnil]; rfl))
        (by dsimp only; omega)
        (fun c hc => by
          rw [← hw.summaries] at hc
          obtain ⟨g, hg, rfl⟩ := List.mem_map.mp hc
          exact (hw.ids g hg).2)
        (Nat.mod_lt _ (Nat.two_pow_pos 16))
      have hrounds := hrec.rounds
      have hlevels := hrec.layers
      dsimp only at hrounds hlevels
      -- a round writes a page at least, since the level is not empty
      have hwrites : 0 < (internalGroups s.level).length := by
        rw [List.length_pos_iff]
        rintro hnil
        rw [hnil] at hflat
        exact hne hflat.symm
      refine ⟨n + 1, root, hrec.top, ?_, hrec.root, hrec.height, by omega, fun k hk => ?_⟩
      · rw [← hw.summaries] at hlevels
        rw [← hall]
        refine .layer hw.sep (fun g hg => ?_) hlevels
        have hid := hw.ids g hg
        refine innerNode_of_holdsChildren ?_ (by omega) (by omega) hsmall
        rw [hrec.frame _ hid.2]
        exact hw.holds g hg
      · exact (hrec.frame k (by dsimp only; omega)).trans (hw.frame k hk)

/-! ## The whole file -/

theorem flatten_splitLeafEntries {entries : List IndexEntry} (h : splitLeafEntries entries ≠ []) :
    (splitLeafEntries entries).flatten = entries := by
  unfold splitLeafEntries at h ⊢
  split
  · rw [Packing.flatten_pack]
  · rename_i hall
    exact absurd (if_neg hall) h

/-- The file holds the entries that are in memory, in order. -/
structure Written (f : IndexFile) : Prop where
  sorted : Sorted f.entries
  leaves : splitLeafEntries f.entries ≠ []
  header : HoldsHeader (f.pages 0) f.rootPageId f.pageCount f.treeHeight
  tree : ∃ level n, LeafChain f.pages level (splitLeafEntries f.entries) ∧ nextOf level = 1 ∧
    (∀ s ∈ level, s.pageId < f.pageCount) ∧ level.length + n < f.pageCount ∧
    SearchTree.Layers PageSummary.pageId (innerNode f.pages f.pageCount) PageSummary.firstKey n
      level f.rootPageId

theorem writePages_eq_some {fuel : Nat} {f g : IndexFile} (h : writePages fuel f = some g) :
    splitLeafEntries f.entries ≠ [] ∧ g.entries = f.entries ∧
      ∃ pages level s root, writeLeaves f.pages 1 (splitLeafEntries f.entries) = some (pages, level) ∧
        writeLevels fuel ⟨pages, level, (splitLeafEntries f.entries).length + 1, 1⟩ = some s ∧
        s.level.head? = some root ∧ g.rootPageId = root.pageId ∧ g.pageCount = s.nextPageId ∧
        g.treeHeight = s.treeHeight ∧ g.pages =
          Function.update s.pages 0 (headerPage root.pageId s.nextPageId s.treeHeight) := by
  rw [writePages] at h
  by_cases hleaves : splitLeafEntries f.entries = []
  · simp [hleaves] at h
  · have hempty : (splitLeafEntries f.entries).isEmpty = false := by simpa using hleaves
    simp only [hempty, Bool.false_eq_true, if_false, Option.bind_eq_bind, Option.bind_eq_some_iff,
      Option.some.injEq] at h
    obtain ⟨⟨pages, level⟩, hwrite, s, hlevels, root, hroot, rfl⟩ := h
    exact ⟨hleaves, rfl, pages, level, s, root, hwrite, hlevels, hroot, rfl, rfl, rfl, rfl⟩

/-- A flush writes the entries that are in memory. -/
theorem written_of_writePages {fuel : Nat} {f g : IndexFile} (h : writePages fuel f = some g)
    (hsorted : Sorted f.entries) (hsmall : g.pageCount < 2 ^ 32) : g.Written := by
  obtain ⟨hleaves, hentries, pages, level, s, root, hwrite, hlevels, hroot, hid, hcount, hheight,
    hpages⟩ := writePages_eq_some h
  have hle := nextPageId_le_of_writeLevels hlevels
  dsimp only at hle
  have hw := leavesWritten_of_writeLeaves hwrite (by omega)
  have hne : level ≠ [] := by
    rw [← List.length_pos_iff, hw.length, List.length_pos_iff]
    exact hleaves
  obtain ⟨n, root', hl⟩ := levelsWritten_of_writeLevels hlevels hne (Nat.succ_pos _)
    (fun c hc => by have := hw.ids c hc; dsimp only; omega) (by dsimp only; omega) (by omega)
  have heq : root = root' := by
    rw [hl.top] at hroot
    exact (Option.some.inj hroot).symm
  subst heq
  have hrounds := hl.rounds
  dsimp only at hrounds
  -- only the header is written after the levels
  have hsame : ∀ k, 0 < k → g.pages k = s.pages k := fun k hk => by
    rw [hpages, Function.update_of_ne (by omega)]
  refine ⟨hentries ▸ hsorted, hentries ▸ hleaves, ?_, level, n, ?_, ?_, ?_, ?_, ?_⟩
  · rw [hpages, Function.update_self, hid, hcount, hheight]
    exact holdsHeader_headerPage (by have := hl.root; omega) (by omega) hl.height
  · rw [hentries]
    refine hw.chain.congr fun c hc => ?_
    have := hw.ids c hc
    exact (hsame _ (by omega)).trans (hl.frame _ (by dsimp only; omega))
  · rw [hw.first, if_neg (by simpa using hleaves)]
  · intro c hc
    have := hw.ids c hc
    omega
  · rw [hw.length]
    omega
  · rw [hid, hcount]
    refine hl.layers.mono fun p c hp => ?_
    by_cases hzero : p = 0
    · rw [innerNode, if_pos (.inl hzero)] at hp
      cases hp
    · rw [← hp, innerNode, innerNode, hsame p (by omega)]

/-! ## Loading -/

theorem LeafChain.cons_iff {pages : Nat → Page} {s : PageSummary} {level : List PageSummary}
    {leaves : List (List IndexEntry)} : LeafChain pages (s :: level) leaves ↔
      ∃ leaf rest, leaves = leaf :: rest ∧ s.firstKey = firstKey leaf ∧
        HoldsLeaf (pages s.pageId) (nextOf level) leaf ∧ LeafChain pages level rest := by
  constructor
  · intro h
    cases leaves with
    | nil => exact h.elim
    | cons leaf rest => exact ⟨leaf, rest, rfl, h⟩
  · rintro ⟨leaf, rest, rfl, h⟩
    exact h

theorem loadEntries_of_chain {pages : Nat → Page} {pageCount fuel : Nat}
    {level : List PageSummary} {leaves : List (List IndexEntry)} {acc es : List IndexEntry}
    (hchain : LeafChain pages level leaves) (hids : ∀ s ∈ level, s.pageId < pageCount)
    (hsmall : pageCount < 2 ^ 32)
    (h : loadEntries pages pageCount fuel (nextOf level) acc = some es) :
    es = acc ++ leaves.flatten := by
  induction level generalizing fuel leaves acc with
  | nil =>
    cases leaves with
    | cons leaf leaves => exact hchain.elim
    | nil =>
      cases fuel with
      | zero => cases h
      | succ fuel =>
        rw [loadEntries, nextOf_nil, if_pos rfl, Option.some.injEq] at h
        simp [h]
  | cons s level ih =>
    obtain ⟨leaf, rest, rfl, -, hleaf, hrest⟩ := LeafChain.cons_iff.mp hchain
    have hs : s.pageId < pageCount := hids s (List.mem_cons_self ..)
    have hno : noPage = 2 ^ 32 - 1 := rfl
    cases fuel with
    | zero => cases h
    | succ fuel =>
      rw [loadEntries, nextOf_cons, if_neg (by omega), if_neg (by omega)] at h
      simp only [hleaf.magic, hleaf.pageType, ne_eq, not_true_eq_false, if_false, hleaf.entries,
        mapM_id_map_some, hleaf.next, Option.bind_eq_bind, Option.bind_some] at h
      rw [ih hrest (fun c hc => hids c (List.mem_cons_of_mem _ hc)) h]
      simp

/-- Loading what a flush has written gives the file back. -/
theorem load_eq_of_written {fuel : Nat} {f g : IndexFile} (hw : f.Written)
    (hsmall : f.pageCount < 2 ^ 32) (h : load fuel f.pages = some g) : g = f := by
  obtain ⟨level, n, hchain, hfirst, hids, -, -⟩ := hw.tree
  have hmagic : ¬indexMagic = 0 := by decide
  have hversion : (f.pages 0).readUint 5 2 = indexVersion := hw.header.version
  simp only [load, hw.header.magic, hmagic, if_false, hw.header.pageType, hversion,
    hw.header.root, hw.header.count, hw.header.height, ne_eq, not_true_eq_false, or_self] at h
  split at h
  · cases h
  · simp only [Option.bind_eq_bind, Option.bind_eq_some_iff, Option.some.injEq] at h
    obtain ⟨es, hload, rfl⟩ := h
    rw [← hfirst] at hload
    have hes := loadEntries_of_chain hchain hids hsmall hload
    rw [List.nil_append, flatten_splitLeafEntries hw.leaves] at hes
    -- the entries are sorted as they are read
    have hsort : es.mergeSort (fun a b => !b.less a) = f.entries := by
      rw [hes]
      refine List.mergeSort_of_pairwise (hw.sorted.imp fun {a b} hab => ?_)
      rw [Bool.not_eq_true', ← Bool.not_eq_true, IndexEntry.less_iff]
      exact not_lt.mpr (le_of_lt hab)
    rw [hsort]

/-! ## Files that can be written -/

theorem writeEntries_succeeds {page : Page} {offset : Nat} {es : List IndexEntry}
    (h : offset + (es.map fun e => entryHeaderSize + e.key.length).sum ≤ pageSize) :
    ∃ q, writeEntries page offset es = some q := by
  induction es generalizing page offset with
  | nil => exact ⟨page, rfl⟩
  | cons e es ih =>
    have h1 : uint16Max = 65535 := rfl
    have h2 : pageSize = 4096 := rfl
    rw [List.map_cons, List.sum_cons] at h
    rw [writeEntries, if_neg (by omega)]
    exact ih (by omega)

theorem writeChildren_succeeds {page : Page} {offset : Nat} {cs : List PageSummary}
    (h : offset + (cs.map fun c => internalChildHeaderSize + c.firstKey.length).sum ≤ pageSize) :
    ∃ q, writeChildren page offset cs = some q := by
  induction cs generalizing page offset with
  | nil => exact ⟨page, rfl⟩
  | cons c cs ih =>
    have h1 : uint16Max = 65535 := rfl
    have h2 : pageSize = 4096 := rfl
    rw [List.map_cons, List.sum_cons] at h
    rw [writeChildren, if_neg (by omega)]
    exact ih (by omega)

theorem encodedSize_singleton_le {entry : IndexEntry} (h : entryFitsEmptyLeaf entry = true) :
    encodedSize [entry] ≤ pageSize := by
  have h1 : uint16Max = 65535 := rfl
  have h2 : pageSize = 4096 := rfl
  rw [entryFitsEmptyLeaf, Bool.and_eq_true, decide_eq_true_iff, decide_eq_true_iff] at h
  simp only [encodedSize, List.map_cons, List.map_nil, List.sum_cons, List.sum_nil, Nat.add_zero]
  split <;> omega

/-- The leaves that the entries are cut into fit their pages. -/
theorem encodedSize_le_of_mem {entries leaf : List IndexEntry}
    (h : leaf ∈ splitLeafEntries entries) : leafHeaderSize +
      (leaf.map fun e => entryHeaderSize + e.key.length).sum ≤ pageSize := by
  have h1 : uint16Max = 65535 := rfl
  have h2 : pageSize = 4096 := rfl
  have h3 : leafHeaderSize = 12 := rfl
  have hsize : encodedSize leaf ≤ pageSize := by
    unfold splitLeafEntries at h
    split at h
    · rename_i hall
      have hone : ∀ e ∈ entries, decide (encodedSize [e] ≤ pageSize) = true := fun e he =>
        decide_eq_true (encodedSize_singleton_le (List.all_eq_true.mp hall e he))
      exact of_decide_eq_true (Packing.fits_of_mem_packFrom hone (by decide) leaf h)
    · cases h
  rw [encodedSize] at hsize
  split at hsize <;> omega

theorem writeLeaves_succeeds (pages : Nat → Page) (pageId : Nat) {leaves : List (List IndexEntry)}
    (h : ∀ leaf ∈ leaves, leafHeaderSize +
      (leaf.map fun e => entryHeaderSize + e.key.length).sum ≤ pageSize) :
    ∃ pages' level, writeLeaves pages pageId leaves = some (pages', level) ∧
      level.map PageSummary.firstKey = leaves.map firstKey := by
  induction leaves generalizing pages pageId with
  | nil => exact ⟨pages, [], rfl, rfl⟩
  | cons leaf leaves ih =>
    obtain ⟨page, hpage⟩ : ∃ page,
        leafPage (if leaves.isEmpty then noPage else pageId + 1) leaf = some page :=
      writeEntries_succeeds (h leaf (List.mem_cons_self ..))
    obtain ⟨pages', level, hrest, hkeys⟩ := ih (Function.update pages pageId page)
      (pageId + 1) fun leaf hleaf => h leaf (List.mem_cons_of_mem _ hleaf)
    refine ⟨pages', ⟨pageId, firstKey leaf⟩ :: level, ?_, by simp [hkeys]⟩
    rw [writeLeaves, hpage]
    simp [hrest]

/-- A level that fits one inner page is the last but one. -/
theorem writeLevels_succeeds {s : Levels} (hne : s.level ≠ [])
    (h : internalSize s.level ≤ pageSize) :
    ∃ t, writeLevels 2 s = some t ∧ t.level ≠ [] ∧ t.nextPageId ≤ s.nextPageId + 1 := by
  by_cases hlen : s.level.length ≤ 1
  · exact ⟨s, by rw [writeLevels, if_pos hlen], hne, Nat.le_succ _⟩
  · have hgroups : internalGroups s.level = [s.level] := by
      have hpack : Packing.pack (fun children => decide (internalSize children ≤ pageSize))
          s.level = [s.level] := by
        refine Packing.packFrom_of_fits fun p hp => ?_
        obtain ⟨rest, hrest⟩ := hp
        rw [← hrest, internalSize, List.map_append, List.sum_append] at h
        rw [decide_eq_true_iff, List.nil_append, internalSize]
        omega
      rw [internalGroups, hpack]
      simpa using hne
    obtain ⟨page, hpage⟩ : ∃ page, internalPage s.level = some page := writeChildren_succeeds h
    refine ⟨⟨Function.update s.pages s.nextPageId page,
      [⟨s.nextPageId, (s.level.head?.map PageSummary.firstKey).getD []⟩], s.nextPageId + 1,
      u16 (s.treeHeight + 1)⟩, ?_, by simp, Nat.le_refl _⟩
    rw [writeLevels, if_neg hlen]
    simp [hgroups, writeGroups, hpage, writeLevels]

/-- An index whose leaves fit under one root is written. -/
theorem writePages_succeeds {f : IndexFile} (hfits : f.entries.all entryFitsEmptyLeaf = true)
    (h : internalHeaderSize + ((splitLeafEntries f.entries).map fun leaf =>
      internalChildHeaderSize + (firstKey leaf).length).sum ≤ pageSize) :
    ∃ g, writePages 2 f = some g ∧ g.pageCount ≤ (splitLeafEntries f.entries).length + 2 := by
  have hleaves : splitLeafEntries f.entries ≠ [] := by
    rw [splitLeafEntries, if_pos hfits]
    exact Packing.packFrom_ne_nil _ _ _
  obtain ⟨pages, level, hwrite, hkeys⟩ := writeLeaves_succeeds f.pages 1
    fun leaf hleaf => encodedSize_le_of_mem hleaf
  have hne : level ≠ [] := by
    rintro rfl
    exact hleaves (List.map_eq_nil_iff.mp hkeys.symm)
  have hsize : internalSize level ≤ pageSize := by
    have hsum : level.map (fun c => internalChildHeaderSize + c.firstKey.length) =
        (level.map PageSummary.firstKey).map fun k => internalChildHeaderSize + k.length := by
      simp
    rw [internalSize, hsum, hkeys, List.map_map]
    exact h
  obtain ⟨t, ht, htop, hnext⟩ := writeLevels_succeeds
    (s := ⟨pages, level, (splitLeafEntries f.entries).length + 1, 1⟩) hne hsize
  obtain ⟨root, rest, hroot⟩ := List.exists_cons_of_ne_nil htop
  refine ⟨⟨f.entries, t.nextPageId, root.pageId, t.treeHeight, Function.update t.pages 0
    (headerPage root.pageId t.nextPageId t.treeHeight)⟩, ?_, hnext⟩
  have hempty : (splitLeafEntries f.entries).isEmpty = false := by simpa using hleaves
  rw [writePages]
  simp only [hempty, Bool.false_eq_true, if_false, hwrite, Option.bind_eq_bind, Option.bind_some,
    ht, hroot, List.head?_cons]

end IndexFile

end ScratchDb
