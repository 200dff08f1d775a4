import ScratchDb.Indexes.IndexPages
import ScratchDb.Lib.Walk

/-!
# Opening a damaged index file

`load` and `find_leaf_page` on any contents of the pages. Both follow page
numbers that they read, check each page they come to, and keep no record of
the pages they have seen: they return exactly if the links are not circular.
-/

namespace ScratchDb

namespace IndexFile

/-! ## Loading -/

/-- The page that the loop of `load` goes to next, unless it returns. -/
def loadNext (pages : Nat → Page) (pageCount pageId : Nat) : Option Nat :=
  if pageId = noPage ∨ pageCount ≤ pageId then none
  else
    let page := pages pageId
    if page.readUint 0 4 ≠ indexMagic then none
    else if page.get 4 ≠ pageTypeLeaf then some (pageId + 1)
    else if ((leafEntries page).mapM id).isNone then none
    else some (page.readUint 5 4)

/-- The loop of `load` for `fuel` pages, as `loadEntries`, but apart from one that needs more is one
that returns false: that is `some none`. -/
def loadLoop (pages : Nat → Page) (pageCount : Nat) :
    Nat → Nat → List IndexEntry → Option (Option (List IndexEntry))
  | 0, _, _ => none
  | fuel + 1, pageId, entries =>
    if pageId = noPage then some (some entries)
    else if pageCount ≤ pageId then some none
    else
      let page := pages pageId
      if page.readUint 0 4 ≠ indexMagic then some none
      else if page.get 4 ≠ pageTypeLeaf then loadLoop pages pageCount fuel (pageId + 1) entries
      else
        match (leafEntries page).mapM id with
        | none => some none
        | some leaf => loadLoop pages pageCount fuel (page.readUint 5 4) (entries ++ leaf)

/-- The header with which `load` starts to read leaves. -/
structure HeaderAccepted (pages : Nat → Page) : Prop where
  magic : (pages 0).readUint 0 4 = indexMagic
  pageType : (pages 0).get 4 = pageTypeHeader
  version : (pages 0).readUint 5 2 = indexVersion
  root : (pages 0).readUint 7 4 ≠ noPage
  count : 2 ≤ (pages 0).readUint 11 4
  height : (pages 0).readUint 15 2 ≠ 0

/-- `load`: `some none` when it returns false, `none` when `fuel` is too little. -/
def loadOutcome (fuel : Nat) (pages : Nat → Page) : Option (Option IndexFile) :=
  let header := pages 0
  if header.readUint 0 4 = 0 then (writePages fuel ⟨[], 2, 1, 1, pages⟩).map some
  else if header.readUint 0 4 ≠ indexMagic ∨ header.get 4 ≠ pageTypeHeader then some none
  else if header.readUint 5 2 ≠ indexVersion then some none
  else
    let rootPageId := header.readUint 7 4
    let pageCount := header.readUint 11 4
    let treeHeight := header.readUint 15 2
    if rootPageId = noPage ∨ pageCount < 2 ∨ treeHeight = 0 then some none
    else (loadLoop pages pageCount fuel 1 []).map fun entries =>
      entries.map fun es =>
        ⟨es.mergeSort fun a b => !b.less a, pageCount, rootPageId, treeHeight, pages⟩

theorem loadEntries_eq (pages : Nat → Page) (pageCount fuel pageId : Nat)
    (entries : List IndexEntry) :
    loadEntries pages pageCount fuel pageId entries =
      (loadLoop pages pageCount fuel pageId entries).join := by
  induction fuel generalizing pageId entries with
  | zero => rfl
  | succ fuel ih =>
    rw [loadEntries, loadLoop]
    split
    · rfl
    · split
      · rfl
      · dsimp only
        split
        · rfl
        · split
          · exact ih _ _
          · cases (leafEntries (pages pageId)).mapM id with
            | none => rfl
            | some leaf => exact ih _ _

theorem load_eq (fuel : Nat) (pages : Nat → Page) :
    load fuel pages = (loadOutcome fuel pages).join := by
  rw [load, loadOutcome]
  dsimp only
  split
  · cases writePages fuel ⟨[], 2, 1, 1, pages⟩ <;> rfl
  · split
    · rfl
    · split
      · rfl
      · split
        · rfl
        · rw [loadEntries_eq]
          cases loadLoop pages ((pages 0).readUint 11 4) fuel 1 [] with
          | none => rfl
          | some entries => cases entries <;> rfl

/-- The loop takes the pages of the walk along `loadNext`. -/
theorem loadLoop_isSome (pages : Nat → Page) (pageCount fuel pageId : Nat)
    (entries : List IndexEntry) :
    (loadLoop pages pageCount fuel pageId entries).isSome =
      (Walk.path (loadNext pages pageCount) fuel pageId).isSome := by
  induction fuel generalizing pageId entries with
  | zero => rfl
  | succ fuel ih =>
    rw [loadLoop]
    by_cases hno : pageId = noPage
    · have hnext : loadNext pages pageCount pageId = none := if_pos (.inl hno)
      rw [if_pos hno, Walk.path_of_none hnext]
      rfl
    · by_cases hcount : pageCount ≤ pageId
      · have hnext : loadNext pages pageCount pageId = none := if_pos (.inr hcount)
        rw [if_neg hno, if_pos hcount, Walk.path_of_none hnext]
        rfl
      · have hnext : loadNext pages pageCount pageId =
            if (pages pageId).readUint 0 4 ≠ indexMagic then none
            else if (pages pageId).get 4 ≠ pageTypeLeaf then some (pageId + 1)
            else if ((leafEntries (pages pageId)).mapM id).isNone then none
            else some ((pages pageId).readUint 5 4) := if_neg (not_or.mpr ⟨hno, hcount⟩)
        rw [if_neg hno, if_neg hcount]
        dsimp only
        split at hnext
        · rename_i hmagic
          rw [if_pos hmagic, Walk.path_of_none hnext]
          rfl
        · rename_i hmagic
          rw [if_neg hmagic]
          split at hnext
          · rename_i htype
            rw [if_pos htype, Walk.path_of_some hnext, Option.isSome_map, ih]
          · rename_i htype
            rw [if_neg htype]
            cases hleaf : (leafEntries (pages pageId)).mapM id with
            | none =>
              rw [hleaf, if_pos Option.isNone_none] at hnext
              rw [Walk.path_of_none hnext]
              rfl
            | some leaf =>
              rw [hleaf, if_neg (by simp : ¬ (some leaf).isNone = true)] at hnext
              rw [Walk.path_of_some hnext, Option.isSome_map]
              exact ih _ _

theorem loadNext_lt {pages : Nat → Page} {pageCount p q : Nat} (hcount : pageCount < 2 ^ 32)
    (h : loadNext pages pageCount p = some q) : q < 2 ^ 32 := by
  rw [loadNext] at h
  split at h
  · cases h
  · rename_i hp
    dsimp only at h
    split at h
    · cases h
    · split at h
      · cases h
        omega
      · split at h
        · cases h
        · cases h
          exact (pages p).readUint_lt 5 4

/-- `load` returns, and each page it follows is followed once. -/
structure LoadEnds (pages : Nat → Page) : Prop where
  returns : ∃ fuel outcome, loadOutcome fuel pages = some outcome
  once : HeaderAccepted pages → ∃ fuel places,
    Walk.path (loadNext pages ((pages 0).readUint 11 4)) fuel 1 = some places ∧ places.Nodup

theorem loadOutcome_of_accepted {pages : Nat → Page} (h : HeaderAccepted pages) (fuel : Nat) :
    loadOutcome fuel pages = (loadLoop pages ((pages 0).readUint 11 4) fuel 1 []).map
      fun entries => entries.map fun es => ⟨es.mergeSort fun a b => !b.less a,
        (pages 0).readUint 11 4, (pages 0).readUint 7 4, (pages 0).readUint 15 2, pages⟩ := by
  have hmagic : ¬ indexMagic = 0 := by decide
  have hcount := h.count
  simp only [loadOutcome, h.magic, hmagic, h.pageType, h.version, h.root, h.height, ne_eq,
    not_true_eq_false, or_self, or_false, false_or, if_false]
  rw [if_neg (by omega)]

theorem loadOutcome_of_not_accepted {pages : Nat → Page} (h : ¬ HeaderAccepted pages) :
    ∃ fuel outcome, loadOutcome fuel pages = some outcome := by
  by_cases hzero : (pages 0).readUint 0 4 = 0
  · -- an empty file gets a tree of one leaf
    have hroom : internalHeaderSize + ((splitLeafEntries []).map fun leaf =>
        internalChildHeaderSize + (firstKey leaf).length).sum ≤ pageSize := by decide
    obtain ⟨g, hwrite, -⟩ := writePages_succeeds (f := ⟨[], 2, 1, 1, pages⟩) rfl hroom
    refine ⟨2, some g, ?_⟩
    rw [loadOutcome]
    simp only [hzero, if_true, hwrite, Option.map_some]
  · refine ⟨0, none, ?_⟩
    rw [loadOutcome]
    simp only [hzero, if_false]
    split
    · rfl
    · rename_i hheader
      split
      · rfl
      · rename_i hversion
        rw [if_pos]
        by_contra hbad
        simp only [ne_eq, not_or, Decidable.not_not] at hheader hbad hversion
        exact h ⟨hheader.1, hheader.2, hversion, hbad.1, by omega, hbad.2.2⟩

/-- `load` returns exactly if its header is not accepted or its links are not circular. -/
theorem loadEnds_iff (pages : Nat → Page) : LoadEnds pages ↔ (HeaderAccepted pages →
    ¬ Walk.Circular (loadNext pages ((pages 0).readUint 11 4)) 1) := by
  have hfinite : (Walk.Reached (loadNext pages ((pages 0).readUint 11 4)) 1).Finite :=
    Walk.finite_reached fun p q => loadNext_lt ((pages 0).readUint_lt 11 4)
  constructor
  · intro h haccepted
    obtain ⟨fuel, places, hpath, -⟩ := h.once haccepted
    exact (Walk.ends_iff hfinite).mp ⟨fuel, places, hpath⟩
  · intro h
    by_cases haccepted : HeaderAccepted pages
    · obtain ⟨fuel, places, hpath⟩ := (Walk.ends_iff hfinite).mpr (h haccepted)
      have hloop := loadLoop_isSome pages ((pages 0).readUint 11 4) fuel 1 []
      rw [hpath] at hloop
      obtain ⟨entries, hentries⟩ := Option.isSome_iff_exists.mp hloop
      have houtcome := loadOutcome_of_accepted haccepted fuel
      rw [hentries, Option.map_some] at houtcome
      exact ⟨⟨fuel, _, houtcome⟩, fun _ => ⟨fuel, places, hpath, Walk.nodup_of_path hpath⟩⟩
    · exact ⟨loadOutcome_of_not_accepted haccepted, fun h => absurd h haccepted⟩

/-! ## Searching -/

/-- The page that `find_leaf_page` goes to next, unless it returns. -/
def descendNext (f : IndexFile) (key : Bytes) (pageId : Nat) : Option Nat :=
  if pageId = noPage ∨ f.pageCount ≤ pageId then none
  else
    let page := f.pages pageId
    if page.readUint 0 4 ≠ indexMagic ∨ page.get 4 = pageTypeLeaf ∨ page.get 4 ≠ pageTypeInternal ∨
        page.readUint 5 2 = 0 then none
    else some (selectChild key true noPage
      (readChildren page (page.readUint 5 2) internalHeaderSize))

theorem findLeafPage_isSome (f : IndexFile) (key : Bytes) (fuel pageId : Nat) :
    (f.findLeafPage key fuel pageId).isSome =
      (Walk.path (f.descendNext key) fuel pageId).isSome := by
  induction fuel generalizing pageId with
  | zero => rfl
  | succ fuel ih =>
    rw [findLeafPage]
    by_cases hbound : pageId = noPage ∨ f.pageCount ≤ pageId
    · have hnext : f.descendNext key pageId = none := if_pos hbound
      rw [if_pos hbound, Walk.path_of_none hnext]
      rfl
    · rw [if_neg hbound]
      dsimp only
      by_cases hstop : (f.pages pageId).readUint 0 4 ≠ indexMagic ∨
          (f.pages pageId).get 4 = pageTypeLeaf ∨ (f.pages pageId).get 4 ≠ pageTypeInternal ∨
            (f.pages pageId).readUint 5 2 = 0
      · have hnext : f.descendNext key pageId = none := (if_neg hbound).trans (if_pos hstop)
        rw [Walk.path_of_none hnext]
        -- each of the four conditions is a return
        split
        · rfl
        · split
          · rfl
          · split
            · rfl
            · split
              · rfl
              · simp_all
      · have hnext := (if_neg hbound).trans (if_neg hstop) (a := f.descendNext key pageId)
        rw [Walk.path_of_some hnext, Option.isSome_map]
        simp only [not_or, Decidable.not_not] at hstop
        rw [if_neg (not_not.mpr hstop.1), if_neg hstop.2.1, if_neg (not_not.mpr hstop.2.2.1),
          if_neg hstop.2.2.2]
        exact ih _

theorem selectChild_lt (key : Bytes) (page : Page) (first : Bool) (selected count offset : Nat)
    (h : selected < 2 ^ 32) :
    selectChild key first selected (readChildren page count offset) < 2 ^ 32 := by
  induction count generalizing first selected offset with
  | zero => exact h
  | succ count ih =>
    rw [readChildren]
    split
    · exact Nat.sub_lt (by decide) (by decide)
    · dsimp only
      split
      · exact Nat.sub_lt (by decide) (by decide)
      · rw [selectChild]
        split
        · exact ih _ _ _ (page.readUint_lt offset 4)
        · exact h

/-- `find_leaf_page` returns, and each page it follows is followed once. -/
structure DescentEnds (f : IndexFile) (key : Bytes) : Prop where
  returns : ∃ fuel pageId, f.findLeafPage key fuel f.rootPageId = some pageId
  once : ∃ fuel places,
    Walk.path (f.descendNext key) fuel f.rootPageId = some places ∧ places.Nodup

theorem descentEnds_iff (f : IndexFile) (key : Bytes) :
    f.DescentEnds key ↔ ¬ Walk.Circular (f.descendNext key) f.rootPageId := by
  have hfinite : (Walk.Reached (f.descendNext key) f.rootPageId).Finite := by
    refine @Walk.finite_reached _ (2 ^ 32) _ fun p q hq => ?_
    rw [descendNext] at hq
    split at hq
    · cases hq
    · dsimp only at hq
      split at hq
      · cases hq
      · cases hq
        exact selectChild_lt key _ true noPage _ _ (by decide)
  rw [← Walk.ends_iff hfinite]
  constructor
  · intro h
    obtain ⟨fuel, places, hpath, -⟩ := h.once
    exact ⟨fuel, places, hpath⟩
  · rintro ⟨fuel, places, hpath⟩
    have hfind := findLeafPage_isSome f key fuel f.rootPageId
    rw [hpath] at hfind
    obtain ⟨pageId, hpage⟩ := Option.isSome_iff_exists.mp hfind
    exact ⟨⟨fuel, pageId, hpage⟩, fuel, places, hpath, Walk.nodup_of_path hpath⟩

/-- On any contents `load` and `find_leaf_page` return, following each page once, exactly if the
links that they follow are not circular. -/
theorem opening_ends_iff (f : IndexFile) (key : Bytes) :
    LoadEnds f.pages ∧ f.DescentEnds key ↔
      (HeaderAccepted f.pages →
        ¬ Walk.Circular (loadNext f.pages ((f.pages 0).readUint 11 4)) 1) ∧
      ¬ Walk.Circular (f.descendNext key) f.rootPageId :=
  and_congr (loadEnds_iff f.pages) (descentEnds_iff f key)

/-! ## Pages that name themselves -/

/-- A header, an empty leaf before the leaf `next`, and a root that is its own only child. -/
def damagedPages (next pageId : Nat) : Page :=
  if pageId = 0 then headerPage 2 3 2
  else if pageId = 1 then (leafPage next []).getD Page.zero
  else (internalPage [⟨2, []⟩]).getD Page.zero

def damagedFile (next : Nat) : IndexFile := ⟨[], 3, 2, 2, damagedPages next⟩

theorem accepted_damagedPages (next : Nat) : HeaderAccepted (damagedPages next) := by
  have h : HoldsHeader (damagedPages next 0) 2 3 2 :=
    holdsHeader_headerPage (by decide) (by decide) (by decide)
  refine ⟨h.magic, h.pageType, h.version, ?_, ?_, ?_⟩
  · rw [h.root]
    decide
  · rw [h.count]
    decide
  · rw [h.height]
    decide

theorem loadNext_damagedPages {next : Nat} (h : next < 2 ^ 32) :
    loadNext (damagedPages next) 3 1 = some next := by
  have hleaf : HoldsLeaf (damagedPages next 1) next [] := holdsLeaf_of_leafPage rfl h
  simp [loadNext, hleaf.magic, hleaf.pageType, hleaf.entries, hleaf.next, noPage]

theorem descendNext_damagedFile (next : Nat) (key : Bytes) :
    (damagedFile next).descendNext key 2 = some 2 := by
  obtain ⟨page, hpage⟩ : ∃ page, internalPage [⟨2, []⟩] = some page :=
    writeChildren_succeeds (by decide)
  have hroot : damagedPages next 2 = page := by
    rw [damagedPages, if_neg (by decide), if_neg (by decide), hpage]
    rfl
  have hinner : HoldsChildren (damagedPages next 2) [⟨2, []⟩] :=
    hroot ▸ holdsChildren_of_internalPage hpage (by decide)
  have hchildren := hinner.children
  have hcount := hinner.count
  rw [List.length_singleton] at hchildren hcount
  simp [descendNext, damagedFile, hinner.magic, hinner.pageType, hcount, hchildren, selectChild,
    pageTypeInternal, pageTypeLeaf, noPage]

theorem circular_of_next_self {next : Nat → Option Nat} {a : Nat} (h : next a = some a) :
    Walk.Circular next a := ⟨a, .refl, .single h⟩

/-- `load` does not return where a leaf is its own next leaf, nor `find_leaf_page` where the root is
its own child. -/
theorem selfLinked_never_ends :
    ¬ LoadEnds (damagedPages 1) ∧ ¬ (damagedFile noPage).DescentEnds [] := by
  constructor
  · intro h
    have hcount : (damagedPages 1 0).readUint 11 4 = 3 :=
      (holdsHeader_headerPage (by decide) (by decide) (by decide) : HoldsHeader _ 2 3 2).count
    refine (loadEnds_iff _).mp h (accepted_damagedPages 1) ?_
    rw [hcount]
    exact circular_of_next_self (loadNext_damagedPages (by decide))
  · intro h
    exact (descentEnds_iff _ _).mp h (circular_of_next_self (descendNext_damagedFile noPage []))

end IndexFile

end ScratchDb
