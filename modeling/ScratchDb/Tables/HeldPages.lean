import ScratchDb.Storage.SlotLists
import ScratchDb.Tables.FileSteps

/-!
# The slots an open file holds

A page of an open file may have several versions: in its frame, packed or not,
and in its block. All of them have the same slots, as long as the frame is not
dirty; a dirty frame has the slots that count.
-/

namespace ScratchDb

open SlottedStore

namespace OpenFile

/-- The open file holds pages with the given slots. -/
structure Represents (f : TableFile) (s : OpenFile) (pages : List (Slots Bytes)) : Prop
    extends Ready f s where
  length : pages.length = s.pageCount
  framed : ∀ k frame, s.cache.find (f.key k) = some frame → frame.page.Stores (slotsAt pages k)
  stored : ∀ k, k < s.pageCount → s.isDirty (f.key k) = false →
    (s.world.disk.fs.pageAt (pathOf f.path) k).Stores (slotsAt pages k)

variable {f : TableFile} {s t : OpenFile} {pages : List (Slots Bytes)} {slots : Slots Bytes}
  {page : Page} {k : Nat}

/-- What a fetch gives. -/
theorem Represents.content (h : s.Represents f pages) (hk : k < s.pageCount) :
    (s.content (f.key k)).Stores (slotsAt pages k) := by
  rw [OpenFile.content]
  rcases hfind : s.cache.find (f.key k) with _ | frame
  · exact h.stored k hk (by rw [isDirty, hfind])
  · exact h.framed k frame hfind

/-- A file whose cache and blocks are the same. -/
theorem Represents.of_same (h : s.Represents f pages) (hready : t.Ready f)
    (hcache : t.cache.find = s.cache.find) (hcount : t.pageCount = s.pageCount)
    (hdisk : t.world.disk.fs.pageAt = s.world.disk.fs.pageAt) : t.Represents f pages := by
  refine ⟨hready, h.length.trans hcount.symm, fun k frame hfind => ?_, fun k hk hclean => ?_⟩
  · rw [hcache] at hfind
    exact h.framed k frame hfind
  · rw [isDirty, hcache] at hclean
    rw [hdisk]
    exact h.stored k (hcount ▸ hk) hclean

theorem Represents.noted (h : s.Represents f pages) (key : CachedPageKey) :
    (s.noted key).Represents f pages :=
  h.of_same (h.toReady.noted key) rfl rfl rfl

theorem Represents.missed (h : s.Represents f pages) : s.missed.Represents f pages :=
  h.of_same h.toReady.missed rfl rfl rfl

theorem Represents.logged (h : s.Represents f pages) (f' : TableFile) (k : Nat)
    (before after : Page) : (s.logged f' k before after).Represents f pages :=
  h.of_same (h.toReady.logged f' k before after) rfl rfl rfl

theorem Represents.flushedThrough (h : s.Represents f pages) (lsn : Nat) :
    (s.flushedThrough lsn).Represents f pages :=
  h.of_same (h.toReady.flushedThrough lsn) (by rw [cache_flushedThrough])
    (pageCount_flushedThrough s lsn) (by rw [disk_flushedThrough])

/-! ## Frames that leave and come -/

theorem pageAt_written (s : OpenFile) (j : Nat) (page : Page) (k : Nat) :
    (s.written (f.key j) page).world.disk.fs.pageAt (pathOf f.path) k =
      if k = j then page else s.world.disk.fs.pageAt (pathOf f.path) k := by
  refine (pageAt_writePage _ _ _ _ _ _).trans ?_
  by_cases hkj : k = j
  · rw [if_pos hkj, if_pos ⟨rfl, hkj⟩]
  · rw [if_neg hkj, if_neg fun heq => hkj heq.2]

/-- A frame that is dirty is written before it leaves. -/
theorem Represents.evicted (h : s.Represents f pages) {frame : CachedPageFrame}
    (hfind : s.cache.find frame.key = some frame) : (s.evicted frame).Represents f pages := by
  have hkey := h.toReady.key_eq (PageCache.mem_of_find hfind).1
  have hcache : (s.evicted frame).cache = s.cache.erase frame.key := rfl
  refine ⟨h.toReady.evicted hfind, h.length, fun k other hother => ?_, fun k hk hclean => ?_⟩
  · have hne : f.key k ≠ frame.key := by
      intro heq
      rw [hcache, heq, PageCache.find_erase_self] at hother
      cases hother
    rw [hcache, PageCache.find_erase_of_ne hne] at hother
    exact h.framed k other hother
  · by_cases hmine : f.key k = frame.key
    · -- the block of the frame
      rw [← hmine] at hfind
      have hframed := h.framed k frame hfind
      by_cases hd : frame.isDirty = true
      · rw [OpenFile.evicted, if_pos hd, ← hmine, pageAt_written, if_pos rfl]
        exact hframed
      · rw [OpenFile.evicted, if_neg hd]
        refine h.stored k hk ?_
        rw [isDirty, hfind]
        exact Bool.eq_false_iff.mpr hd
    · have hsame : (s.evicted frame).world.disk.fs.pageAt (pathOf f.path) k =
          s.world.disk.fs.pageAt (pathOf f.path) k := by
        by_cases hd : frame.isDirty = true
        · rw [OpenFile.evicted, if_pos hd, hkey, pageAt_written, if_neg]
          intro heq
          exact hmine (by rw [hkey, ← heq])
        · rw [OpenFile.evicted, if_neg hd]
      rw [isDirty, hcache, PageCache.find_erase_of_ne hmine] at hclean
      rw [hsame]
      exact h.stored k hk hclean

theorem Represents.roomed (h : s.Represents f pages) : s.roomed.Represents f pages := by
  rcases roomed_cases h.toTidy with ⟨-, heq⟩ | ⟨v, hv, -, heq⟩
  · rwa [heq]
  · rw [heq]
    exact h.evicted (PageCache.find_of_victim hv).1

theorem Represents.madeRoom (h : s.Represents f pages) (key : CachedPageKey) :
    (s.madeRoom key).Represents f pages := by
  unfold OpenFile.madeRoom
  split
  · exact h.noted key
  · exact (h.noted key).missed.roomed

/-- Making room for a page writes no block of it. -/
theorem pageAt_madeRoom (h : s.Ready f) (k : Nat) :
    (s.madeRoom (f.key k)).world.disk.fs.pageAt (pathOf f.path) k =
      s.world.disk.fs.pageAt (pathOf f.path) k := by
  rcases hfind : s.cache.find (f.key k) with _ | frame
  · rw [OpenFile.madeRoom, hfind]
    have hnone : (s.noted (f.key k)).missed.cache.find (f.key k) = none := hfind
    exact pageAt_roomed (h.noted (f.key k)).missed.toTidy hnone
  · rw [OpenFile.madeRoom, hfind]
    rfl

theorem key_ne {j : Nat} (h : j ≠ k) : f.key j ≠ f.key k := fun heq =>
  h (congrArg CachedPageKey.pageId heq)

/-- A page of the file with other slots. -/
theorem Represents.set (h : s.Represents f pages) (hk : k < s.pageCount) (hready : t.Ready f)
    (hcount : t.pageCount = s.pageCount)
    (hdisk : ∀ j, t.world.disk.fs.pageAt (pathOf f.path) j = s.world.disk.fs.pageAt (pathOf f.path) j)
    {frame : CachedPageFrame} (hpage : frame.page.Stores slots)
    (hfind : ∀ j, t.cache.find (f.key j) =
      if j = k then some frame else s.cache.find (f.key j))
    (hclean : frame.isDirty = false →
      (s.world.disk.fs.pageAt (pathOf f.path) k).Stores slots) :
    t.Represents f (pages.set k slots) := by
  have hk' : k < pages.length := h.length ▸ hk
  refine ⟨hready, by rw [List.length_set, h.length, hcount], fun j other hother => ?_,
    fun j hj hjclean => ?_⟩
  · rw [slotsAt_set hk']
    rw [hfind j] at hother
    split at hother
    · rename_i hjk
      cases hother
      rw [if_pos hjk]
      exact hpage
    · rename_i hjk
      rw [if_neg hjk]
      exact h.framed j other hother
  · rw [slotsAt_set hk', hdisk j]
    rw [isDirty, hfind j] at hjclean
    by_cases hjk : j = k
    · rw [if_pos hjk] at hjclean ⊢
      rw [hjk]
      exact hclean hjclean
    · rw [if_neg hjk] at hjclean ⊢
      exact h.stored j (hcount ▸ hj) hjclean

/-- A page looked at or changed in the cache. Other slots make it dirty. -/
theorem Represents.visited (h : s.Represents f pages) (hk : k < s.pageCount) {dirty : Bool}
    (hpage : page.Stores slots) (hdirty : dirty = false → slots = slotsAt pages k) :
    (s.visited (f.key k) page dirty).Represents f (pages.set k slots) := by
  have hmade := h.madeRoom (f.key k)
  have hcount := pageCount_madeRoom s (f.key k)
  have hframe : (⟨f.key k, page, s.isDirty (f.key k) || dirty, 0⟩ : CachedPageFrame).page.Stores
      slots := hpage
  refine hmade.set (hcount.symm ▸ hk) (h.toReady.visited hk page dirty) ?_ (fun j => ?_) hframe
    (fun j => ?_) fun hclean => ?_
  · rw [pageCount_visited, hcount]
  · rw [world_visited]
  · rw [find_visited h.toReady]
    by_cases hjk : j = k
    · rw [if_pos hjk, if_pos (by rw [hjk])]
    · rw [if_neg hjk, if_neg (key_ne hjk)]
  · obtain ⟨hwas, hnot⟩ := Bool.or_eq_false_iff.mp hclean
    rw [pageAt_madeRoom h.toReady k, hdirty hnot]
    exact h.stored k hk hwas

theorem set_slotsAt (hk : k < pages.length) : pages.set k (slotsAt pages k) = pages := by
  rw [slotsAt_of_lt hk, List.set_getElem_self]

/-- A page looked at. -/
theorem Represents.looked (h : s.Represents f pages) (hk : k < s.pageCount)
    (hpage : page.Stores (slotsAt pages k)) :
    (s.visited (f.key k) page false).Represents f pages := by
  have hvisited : (s.visited (f.key k) page false).Represents f (pages.set k (slotsAt pages k)) :=
    h.visited hk hpage fun _ => rfl
  rwa [set_slotsAt (h.length ▸ hk)] at hvisited

/-- A frame written and marked clean. -/
theorem Represents.cleaned (h : s.Represents f pages) {frame : CachedPageFrame}
    (hfind : s.cache.find frame.key = some frame) : (s.cleaned f frame).Represents f pages := by
  have hkey := h.toReady.key_eq (PageCache.mem_of_find hfind).1
  have hready := h.toReady.cleaned hfind
  have hflushed : (if f.walManager then s.flushedThrough frame.page.pageLsn else s).Represents f
      pages := by
    split
    · exact h.flushedThrough _
    · exact h
  have hcache : (if f.walManager then s.flushedThrough frame.page.pageLsn else s).cache =
      s.cache := by
    split
    · exact cache_flushedThrough s _
    · rfl
  have hcount : (s.cleaned f frame).pageCount =
      (if f.walManager then s.flushedThrough frame.page.pageLsn else s).pageCount := rfl
  have hpage := hkey ▸ hfind
  have hdisk : ∀ j, (s.cleaned f frame).world.disk.fs.pageAt (pathOf f.path) j =
      if j = frame.key.pageId then frame.page
      else (if f.walManager then s.flushedThrough frame.page.pageLsn else s).world.disk.fs.pageAt
        (pathOf f.path) j := by
    intro j
    have hwritten := pageAt_written (f := f)
      (if f.walManager then s.flushedThrough frame.page.pageLsn else s) frame.key.pageId frame.page j
    rw [← hkey] at hwritten
    exact hwritten
  refine ⟨hready, hflushed.length.trans hcount.symm, fun k other hother => ?_,
    fun k hk hclean => ?_⟩
  · rw [TableFile.find_cleaned] at hother
    split at hother
    · obtain ⟨old, hold, rfl⟩ := Option.map_eq_some_iff.mp hother
      exact h.framed k old hold
    · exact h.framed k other hother
  · rw [hdisk]
    by_cases hmine : k = frame.key.pageId
    · rw [if_pos hmine, hmine]
      exact h.framed _ frame hpage
    · rw [if_neg hmine]
      rw [isDirty, TableFile.find_cleaned, if_neg] at hclean
      · refine hflushed.stored k (hcount ▸ hk) ?_
        rw [isDirty, hcache]
        exact hclean
      · rw [hkey]
        exact key_ne hmine

/-! ## A page more -/

/-- The file with a page behind its end written. -/
def extended (s : OpenFile) (f : TableFile) (page : Page) : OpenFile :=
  { s.written (f.key s.pageCount) page with pageCount := s.pageCount + 1 }

theorem Ready.extended (h : s.Ready f) (page : Page) : (s.extended f page).Ready f := by
  have hwritten := pageCount_written s (f.key s.pageCount) page (pathOf f.path)
  have hfile : pathOf f.path = (f.key s.pageCount).tableFile := rfl
  rw [if_pos hfile, h.count] at hwritten
  refine ⟨⟨h.sound, h.ours, h.unpinned, h.parent⟩,
    fun frame hframe => (h.within frame hframe).trans (Nat.lt_succ_self _), ?_⟩
  refine hwritten.trans ?_
  exact max_eq_right (Nat.le_succ _)

theorem Represents.extended (h : s.Represents f pages) (hpage : page.Stores slots) :
    (s.extended f page).Represents f (pages ++ [slots]) := by
  have hlength := h.length
  have hcount : (s.extended f page).pageCount = s.pageCount + 1 := rfl
  have hdisk : ∀ j, (s.extended f page).world.disk.fs.pageAt (pathOf f.path) j =
      if j = s.pageCount then page else s.world.disk.fs.pageAt (pathOf f.path) j := fun j =>
    pageAt_written s s.pageCount page j
  refine ⟨h.toReady.extended page, ?_, fun k frame hfind => ?_, fun k hk hclean => ?_⟩
  · rw [List.length_append, List.length_singleton, hlength, hcount]
  · have hwithin := (h.toReady.find_inv hfind).2.1
    have hk : k < s.pageCount := hwithin
    rw [slotsAt_append, if_neg (by omega)]
    exact h.framed k frame hfind
  · rw [slotsAt_append, hdisk, hlength]
    split
    · exact hpage
    · rename_i hne
      exact h.stored k (by omega) hclean

/-- A new frame, dirty, for a page that has none. -/
theorem Represents.placed (h : s.Represents f pages) (hk : k < s.pageCount)
    (hnone : s.cache.find (f.key k) = none) (hroom : s.cache.pages.length < s.cache.capacity)
    (hpage : page.Stores (slotsAt pages k)) : (s.placed (f.key k) page).Represents f pages := by
  have hframe : (⟨f.key k, page, true, 0⟩ : CachedPageFrame).page.Stores (slotsAt pages k) := hpage
  have hset : (s.placed (f.key k) page).Represents f (pages.set k (slotsAt pages k)) := by
    refine h.set hk (h.toReady.placed hk hnone hroom page) rfl (fun _ => rfl) hframe (fun j => ?_)
      fun hclean => by cases hclean
    rw [find_placed]
    by_cases hjk : j = k
    · rw [if_pos hjk, if_pos (by rw [hjk])]
    · rw [if_neg hjk, if_neg (key_ne hjk)]
  rwa [set_slotsAt (h.length ▸ hk)] at hset

end OpenFile

end ScratchDb
