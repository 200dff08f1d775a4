import Mathlib.Logic.Relation
import ScratchDb.Tables.CacheState

/-!
# The steps of a table file

Every operation of `TableFile` is a path of four kinds of steps: a page is
looked at, a page is changed and the change logged, a page is appended, a
frame is flushed. What holds after every step holds after every operation.
-/

namespace ScratchDb

open WalManager

namespace OpenFile

variable {f : TableFile} {s t : OpenFile} {key : CachedPageKey}

/-! ## Changes that are logged -/

/-- The record `log_page_update` appends. -/
def pageRecord (f : TableFile) (lsn k : Nat) (before after : Page) : WalRecord :=
  ⟨.pageUpdate, lsn, f.transactionId, k, f.path, before.image, after.image, []⟩

/-- The number the next record gets. -/
def nextLsn (s : OpenFile) : Nat := s.world.manager.lastLsn + 1

def logged (s : OpenFile) (f : TableFile) (k : Nat) (before after : Page) : OpenFile :=
  { s with world := s.world.advance [.append (pageRecord f s.nextLsn k before after)] s.nextLsn }

/-- Page `k` changed to `after`, logged and left dirty. -/
def updated (s : OpenFile) (f : TableFile) (k : Nat) (after : Page) : OpenFile :=
  (s.visited (f.key k) (after.setPageLsn s.nextLsn) true).logged f k (s.content (f.key k)) after

/-- `flush_through`. -/
def flushedThrough (s : OpenFile) (lsn : Nat) : OpenFile :=
  if lsn ≤ s.world.manager.durableLsn then s else { s with world := s.world.flushed }

/-- The file with the page behind its end written. -/
def grown (s : OpenFile) (f : TableFile) (page : Page) : OpenFile :=
  let t := (s.logged f s.pageCount Page.blank page).flushedThrough (page.setPageLsn s.nextLsn).pageLsn
  { t.written (f.key s.pageCount) (page.setPageLsn s.nextLsn) with pageCount := s.pageCount + 1 }

/-- A new frame, still pinned. -/
def fresh (s : OpenFile) (key : CachedPageKey) (page : Page) : OpenFile :=
  { s with cache := s.cache.emplace ⟨key, page, true, 1⟩ }

/-- A new frame, unpinned after use. -/
def placed (s : OpenFile) (key : CachedPageKey) (page : Page) : OpenFile :=
  (s.fresh key page).released key false

/-- A page appended: logged, flushed through, written, and brought into the cache. -/
def appendedPage (s : OpenFile) (f : TableFile) (page : Page) : OpenFile :=
  ((s.grown f page).noted (f.key s.pageCount)).roomed.placed (f.key s.pageCount)
    (page.setPageLsn s.nextLsn)

/-- A frame written and marked clean. -/
def cleaned (s : OpenFile) (f : TableFile) (frame : CachedPageFrame) : OpenFile :=
  let t := if f.walManager then s.flushedThrough frame.page.pageLsn else s
  let t := t.written frame.key frame.page
  { t with cache := t.cache.change frame.key .clean }

/-! ## Steps -/

/-- One step of a table file whose pages change as `change` allows. A failed
insert may leave a page packed. -/
inductive Step (f : TableFile) (change : Page → Page → Prop) : OpenFile → OpenFile → Prop
  | visit {s : OpenFile} {k : Nat} {page : Page} : k < s.pageCount →
      page = s.content (f.key k) ∨ (∃ record, (s.content (f.key k)).insert record = (none, page)) →
      Step f change s (s.visited (f.key k) page false)
  | update {s : OpenFile} {k : Nat} {after : Page} : f.walManager = true → k < s.pageCount →
      change (s.content (f.key k)) after → Step f change s (s.updated f k after)
  | append {s : OpenFile} {page : Page} : f.walManager = true → change Page.blank page →
      Step f change s (s.appendedPage f page)
  | clean {s : OpenFile} {frame : CachedPageFrame} : s.cache.find frame.key = some frame →
      frame.isDirty = true → Step f change s (s.cleaned f frame)

/-- A path of steps. -/
def Steps (f : TableFile) (change : Page → Page → Prop) : OpenFile → OpenFile → Prop :=
  Relation.ReflTransGen (Step f change)

theorem Ready.logged (h : s.Ready f) (f' : TableFile) (k : Nat) (before after : Page) :
    (s.logged f' k before after).Ready f :=
  ⟨⟨h.sound, h.ours, h.unpinned, h.parent⟩, h.within, h.count⟩

theorem Ready.updated (h : s.Ready f) {k : Nat} (hk : k < s.pageCount) (after : Page) :
    (s.updated f k after).Ready f :=
  (h.visited hk _ true).logged f k _ _

theorem Ready.flushedThrough (h : s.Ready f) (lsn : Nat) : (s.flushedThrough lsn).Ready f := by
  unfold OpenFile.flushedThrough
  split
  · exact h
  · exact ⟨⟨h.sound, h.ours, h.unpinned, h.parent⟩, h.within, h.count⟩

@[simp] theorem cache_flushedThrough (s : OpenFile) (lsn : Nat) :
    (s.flushedThrough lsn).cache = s.cache := by
  unfold flushedThrough
  split <;> rfl

@[simp] theorem pageCount_flushedThrough (s : OpenFile) (lsn : Nat) :
    (s.flushedThrough lsn).pageCount = s.pageCount := by
  unfold flushedThrough
  split <;> rfl

@[simp] theorem accesses_flushedThrough (s : OpenFile) (lsn : Nat) :
    (s.flushedThrough lsn).accesses = s.accesses := by
  unfold flushedThrough
  split <;> rfl

@[simp] theorem disk_flushedThrough (s : OpenFile) (lsn : Nat) :
    (s.flushedThrough lsn).world.disk = s.world.disk := by
  unfold flushedThrough
  split <;> rfl

@[simp] theorem lastLsn_flushedThrough (s : OpenFile) (lsn : Nat) :
    (s.flushedThrough lsn).world.manager.lastLsn = s.world.manager.lastLsn := by
  unfold flushedThrough
  split <;> rfl

@[simp] theorem trace_flushedThrough (s : OpenFile) (lsn : Nat) :
    (s.flushedThrough lsn).world.trace = s.world.trace := by
  unfold flushedThrough
  split <;> rfl

theorem le_durableLsn_flushedThrough {lsn : Nat} (h : lsn ≤ s.world.manager.lastLsn) :
    lsn ≤ (s.flushedThrough lsn).world.manager.durableLsn := by
  unfold flushedThrough
  split
  · assumption
  · exact h

attribute [irreducible] flushedThrough

theorem Ready.cleaned (h : s.Ready f) {frame : CachedPageFrame}
    (hfind : s.cache.find frame.key = some frame) : (s.cleaned f frame).Ready f := by
  have hclean : ∀ frame : CachedPageFrame, frame.clean.key = frame.key := fun _ => rfl
  obtain ⟨hfile, hk, hpin⟩ := h.find_inv hfind
  have hready : (if f.walManager then s.flushedThrough frame.page.pageLsn else s).Ready f := by
    split
    · exact h.flushedThrough _
    · exact h
  have hcache : (s.cleaned f frame).cache = s.cache.change frame.key .clean := by
    unfold OpenFile.cleaned
    split <;> simp [written]
  have hcount : (s.cleaned f frame).pageCount = s.pageCount := by
    unfold OpenFile.cleaned
    split <;> simp [written]
  refine Ready.of_find ?_ (fun key g hg => ?_) hready.parent ?_
  · rw [hcache]
    exact h.sound.change _ hclean
  · rw [hcache, PageCache.find_change _ _ _ hclean] at hg
    rw [hcount]
    split at hg
    · obtain ⟨g', hg', rfl⟩ := Option.map_eq_some_iff.mp hg
      obtain ⟨h1, h2, h3⟩ := h.find_inv hg'
      exact ⟨h1, h2, h3⟩
    · exact h.find_inv hg
  · have hold := hready.count
    have hwritten := pageCount_written
      (if f.walManager then s.flushedThrough frame.page.pageLsn else s) frame.key frame.page
      (pathOf f.path)
    rw [if_pos hfile.symm, hold] at hwritten
    refine hwritten.trans ?_
    rw [hcount]
    have hsame : (if f.walManager then s.flushedThrough frame.page.pageLsn else s).pageCount =
        s.pageCount := by
      split <;> simp
    rw [hsame]
    exact max_eq_left hk

theorem Ready.find_behind (h : s.Ready f) {k : Nat} (hk : s.pageCount ≤ k) :
    s.cache.find (f.key k) = none := by
  rcases hfind : s.cache.find (f.key k) with _ | frame
  · rfl
  · exact absurd (h.find_inv hfind).2.1 (Nat.not_lt.mpr hk)

@[simp] theorem cache_grown (s : OpenFile) (f : TableFile) (page : Page) :
    (s.grown f page).cache = s.cache := by
  simp [grown, written, logged]

@[simp] theorem pageCount_grown (s : OpenFile) (f : TableFile) (page : Page) :
    (s.grown f page).pageCount = s.pageCount + 1 := rfl

theorem parentExists_written (s : OpenFile) (key : CachedPageKey) (page : Page) (p : Path) :
    (s.written key page).world.disk.fs.parentExists p = s.world.disk.fs.parentExists p := rfl

theorem Ready.grown (h : s.Ready f) (page : Page) : (s.grown f page).Ready f := by
  have hready := (h.logged f s.pageCount Page.blank page).flushedThrough
    (page.setPageLsn s.nextLsn).pageLsn
  have hwritten := pageCount_written ((s.logged f s.pageCount Page.blank page).flushedThrough
    (page.setPageLsn s.nextLsn).pageLsn) (f.key s.pageCount) (page.setPageLsn s.nextLsn)
    (pathOf f.path)
  have hparent := parentExists_written ((s.logged f s.pageCount Page.blank page).flushedThrough
    (page.setPageLsn s.nextLsn).pageLsn) (f.key s.pageCount) (page.setPageLsn s.nextLsn)
    (pathOf f.path)
  have hfile : pathOf f.path = (f.key s.pageCount).tableFile := rfl
  rw [if_pos hfile, hready.count, pageCount_flushedThrough] at hwritten
  rw [hready.parent] at hparent
  refine ⟨⟨?_, ?_, ?_, hparent⟩, ?_, ?_⟩
  · rw [cache_grown]
    exact h.sound
  · rw [cache_grown]
    exact h.ours
  · rw [cache_grown]
    exact h.unpinned
  · rw [cache_grown]
    exact fun frame hframe => (h.within frame hframe).trans (Nat.lt_succ_self _)
  · refine hwritten.trans ?_
    rw [pageCount_grown]
    exact max_eq_right (Nat.le_succ _)

theorem find_placed (s : OpenFile) (key : CachedPageKey) (page : Page) (key' : CachedPageKey) :
    (s.placed key page).cache.find key' =
      if key' = key then some ⟨key, page, true, 0⟩ else s.cache.find key' := by
  have hunpin : ∀ frame : CachedPageFrame, (frame.unpin false).key = frame.key := fun _ => rfl
  refine (PageCache.find_change _ _ _ hunpin).trans ?_
  by_cases heq : key' = key
  · subst heq
    rw [if_pos rfl, if_pos rfl]
    exact congrArg (Option.map (CachedPageFrame.unpin false))
      (PageCache.find_emplace_self s.cache ⟨key', page, true, 1⟩)
  · rw [if_neg heq, if_neg heq]
    exact PageCache.find_emplace_of_ne heq

theorem Ready.placed (h : s.Ready f) {k : Nat} (hk : k < s.pageCount)
    (hnone : s.cache.find (f.key k) = none) (hroom : s.cache.pages.length < s.cache.capacity)
    (page : Page) : (s.placed (f.key k) page).Ready f := by
  have hunpin : ∀ frame : CachedPageFrame, (frame.unpin false).key = frame.key := fun _ => rfl
  refine Ready.of_find ((h.sound.emplace hnone hroom).change _ hunpin) (fun key frame hfind => ?_)
    h.parent h.count
  rw [find_placed] at hfind
  split at hfind
  · rename_i heq
    obtain rfl := Option.some.inj hfind
    subst heq
    exact ⟨rfl, hk, rfl⟩
  · exact h.find_inv hfind

theorem Ready.appendedPage (h : s.Ready f) (page : Page) : (s.appendedPage f page).Ready f := by
  have hgrown := (h.grown page).noted (f.key s.pageCount)
  have hcount : s.pageCount < ((s.grown f page).noted (f.key s.pageCount)).roomed.pageCount := by
    rw [pageCount_roomed]
    exact Nat.lt_succ_self _
  refine hgrown.roomed.placed hcount ?_ (length_roomed hgrown.toTidy) _
  have hnone : ((s.grown f page).noted (f.key s.pageCount)).cache.find (f.key s.pageCount) = none := by
    rw [OpenFile.noted, cache_grown]
    exact h.find_behind (Nat.le_refl _)
  rcases find_roomed hgrown.toTidy (f.key s.pageCount) with hsame | ⟨hnone', -⟩
  · rw [hsame, hnone]
  · exact hnone'

theorem Step.ready {change : Page → Page → Prop} (h : Step f change s t) (hs : s.Ready f) :
    t.Ready f := by
  cases h with
  | visit hk _ => exact hs.visited hk _ _
  | update _ hk _ => exact hs.updated hk _
  | append _ _ => exact hs.appendedPage _
  | clean hfind _ => exact hs.cleaned hfind

/-- A property that every step keeps holds after a path of steps. -/
theorem Steps.invariant {change : Page → Page → Prop} {P : OpenFile → Prop}
    (hstep : ∀ s t, Step f change s t → s.Ready f → P s → P t) (h : Steps f change s t)
    (hs : s.Ready f) (hP : P s) : t.Ready f ∧ P t := by
  induction h with
  | refl => exact ⟨hs, hP⟩
  | tail _ hlast ih => exact ⟨hlast.ready ih.1, hstep _ _ hlast ih.1 ih.2⟩

theorem Steps.ready {change : Page → Page → Prop} (h : Steps f change s t) (hs : s.Ready f) :
    t.Ready f :=
  (h.invariant (P := fun _ => True) (fun _ _ _ _ _ => trivial) hs trivial).1

theorem Steps.mono {change change' : Page → Page → Prop} (h : Steps f change s t)
    (hmono : ∀ p q, change p q → change' p q) : Steps f change' s t := by
  induction h with
  | refl => exact .refl
  | tail _ hlast ih =>
      refine ih.tail ?_
      cases hlast with
      | visit hk hpage => exact .visit hk hpage
      | update hwal hk hchange => exact .update hwal hk (hmono _ _ hchange)
      | append hwal hchange => exact .append hwal (hmono _ _ hchange)
      | clean hfind hdirty => exact .clean hfind hdirty

end OpenFile

/-! ## The operations -/

namespace TableFile

open OpenFile PageCache

variable {f : TableFile} {s t : OpenFile} {key : CachedPageKey} {k : Nat}

/-- The changes of a page by the operations on records. -/
def RowChange (before after : Page) : Prop :=
  (∃ record slotId, before.insert record = (some slotId, after)) ∨
  (∃ slotId, before.remove slotId = (true, after)) ∨
  ∃ slotId record, before.update slotId record = (true, after)

theorem unpinPage_eq {frame : CachedPageFrame} (hfind : s.cache.find key = some frame)
    (hpin : frame.pinCount ≠ 0) (dirty : Bool) :
    unpinPage key dirty s = (.ok true, s.released key dirty) := by
  rw [unpinPage, Prog.bind_ok (Prog.get_apply s), hfind]
  simp only [if_neg hpin]
  rfl

theorem unpinPage_fetched (h : s.Ready f) (page : Page) (dirty : Bool) :
    unpinPage key dirty ((s.fetched key).paged key page) =
      (.ok true, s.visited key page dirty) := by
  have hhold : ∀ frame : CachedPageFrame, (frame.hold page).key = frame.key := fun _ => rfl
  have hfind : ((s.fetched key).paged key page).cache.find key =
      some (CachedPageFrame.hold page ⟨key, s.content key, s.isDirty key, 1⟩) := by
    refine (find_change _ _ _ hhold).trans ?_
    rw [if_pos rfl, find_fetched h, if_pos rfl]
    rfl
  exact unpinPage_eq hfind (by simp [CachedPageFrame.hold]) dirty

/-- Holding what a frame holds already changes nothing. -/
theorem paged_content (h : s.Ready f) (key : CachedPageKey) :
    (s.fetched key).paged key (s.content key) = s.fetched key := by
  have hsound := sound_fetched h key
  have hpages : ((s.fetched key).cache.change key (.hold (s.content key))).pages =
      (s.fetched key).cache.pages := by
    refine (List.map_congr_left fun frame hframe => ?_).trans (List.map_id _)
    split
    · rename_i heq
      have hfind := hsound.find_of_mem hframe
      rw [heq, find_fetched h, if_pos rfl] at hfind
      rw [← Option.some.inj hfind]
      rfl
    · rfl
  unfold paged
  rw [PageCache.change] at hpages ⊢
  simp only at hpages
  rw [hpages]

theorem unpinPage_visit (h : s.Ready f) (key : CachedPageKey) :
    unpinPage key false (s.fetched key) = (.ok true, s.visited key (s.content key) false) := by
  have hunpin : unpinPage key false ((s.fetched key).paged key (s.content key)) =
      (.ok true, s.visited key (s.content key) false) := unpinPage_fetched h (s.content key) false
  rwa [paged_content h key] at hunpin

theorem readPage_eq (h : s.Ready f) (hk : k < s.pageCount) :
    f.readPage k s = (.ok (some (s.content (f.key k))),
      s.visited (f.key k) (s.content (f.key k)) false) := by
  rw [readPage, Prog.bind_ok (Prog.get_apply s), if_neg (Nat.not_le.mpr hk),
    Prog.bind_ok (fetchPage_eq h hk)]
  simp only
  rw [Prog.bind_ok (unpinPage_visit h _)]
  rfl

theorem readPage_behind (hk : s.pageCount ≤ k) : f.readPage k s = (.ok none, s) := by
  rw [readPage, Prog.bind_ok (Prog.get_apply s), if_pos hk]
  rfl

theorem logPageUpdate_eq (hwal : f.walManager = true) (before after : Page) :
    f.logPageUpdate k before after s =
      (.ok (some (after.setPageLsn s.nextLsn)), s.logged f k before after) := by
  have hlog : OpenFile.io (WalManager.logPageUpdate f.transactionId f.path k before after) s =
      (.ok s.nextLsn, s.logged f k before after) := by
    rw [io_apply, WalManager.logPageUpdate, appendRecord_eq]
    rfl
  rw [logPageUpdate, hwal]
  simp only [Bool.not_true, Bool.false_eq_true, if_false]
  have hne : s.nextLsn ≠ 0 := Nat.succ_ne_zero _
  rw [Prog.bind_ok hlog, if_neg hne]
  rfl

theorem logOrRestore_eq (hwal : f.walManager = true) (before after : Page) :
    f.logOrRestore k before after s =
      (.ok true, (s.logged f k before after).paged (f.key k) (after.setPageLsn s.nextLsn)) := by
  rw [logOrRestore, Prog.bind_ok (logPageUpdate_eq hwal before after)]
  rfl

theorem lastLsn_roomed (s : OpenFile) : s.roomed.world.manager = s.world.manager := by
  unfold roomed
  split
  · rfl
  · split
    · rfl
    · unfold evicted
      split <;> rfl

theorem manager_madeRoom (s : OpenFile) (key : CachedPageKey) :
    (s.madeRoom key).world.manager = s.world.manager := by
  unfold madeRoom
  split
  · rfl
  · exact lastLsn_roomed _

theorem world_fetched (s : OpenFile) (key : CachedPageKey) :
    (s.fetched key).world = (s.madeRoom key).world := by
  unfold fetched
  split <;> rfl

theorem nextLsn_fetched (s : OpenFile) (key : CachedPageKey) :
    (s.fetched key).nextLsn = s.nextLsn := by
  rw [nextLsn, world_fetched, manager_madeRoom]
  rfl

/-- A change of a fetched page that is logged, held and unpinned dirty. -/
def changed (s : OpenFile) (f : TableFile) (k : Nat) (after : Page) : OpenFile :=
  ((s.fetched (f.key k)).paged (f.key k) (after.setPageLsn s.nextLsn)).logged f k
    (s.content (f.key k)) after

theorem logOrRestore_fetched (hwal : f.walManager = true) (s : OpenFile) (after : Page) :
    f.logOrRestore k (s.content (f.key k)) after (s.fetched (f.key k)) =
      (.ok true, changed s f k after) := by
  rw [logOrRestore_eq hwal, nextLsn_fetched]
  rw [changed, logged, logged, nextLsn_fetched]
  have hnext : ((s.fetched (f.key k)).paged (f.key k) (after.setPageLsn s.nextLsn)).nextLsn =
      s.nextLsn := nextLsn_fetched s (f.key k)
  rw [hnext]
  rfl

theorem unpinPage_changed (h : s.Ready f) (after : Page) :
    unpinPage (f.key k) true (changed s f k after) = (.ok true, s.updated f k after) := by
  have hhold : ∀ frame : CachedPageFrame,
    (frame.hold (after.setPageLsn s.nextLsn)).key = frame.key := fun _ => rfl
  have hfind : (changed s f k after).cache.find (f.key k) = some (CachedPageFrame.hold
      (after.setPageLsn s.nextLsn) ⟨f.key k, s.content (f.key k), s.isDirty (f.key k), 1⟩) := by
    refine (find_change _ _ _ hhold).trans ?_
    rw [if_pos rfl, find_fetched h, if_pos rfl]
    rfl
  rw [unpinPage_eq hfind (by simp [CachedPageFrame.hold]) true]
  rfl

theorem newPage_eq (h : s.Ready f) (hnone : s.cache.find key = none) (page : Page) :
    newPage key page false s = (.ok true, (s.noted key).roomed.fresh key page) := by
  have hnote : noteAccess key s = (.ok (), s.noted key) := rfl
  have hfind : (s.noted key).cache.find key = none := hnone
  rw [newPage, Prog.bind_ok hnote, Prog.bind_ok (Prog.get_apply _), hfind]
  simp only
  rw [Prog.bind_ok (makeRoom_eq (h.noted key).toTidy)]
  rfl

theorem unpinPage_fresh (s : OpenFile) (key : CachedPageKey) (page : Page) :
    unpinPage key false (s.fresh key page) = (.ok true, s.placed key page) :=
  unpinPage_eq (find_emplace_self s.cache ⟨key, page, true, 1⟩) Nat.one_ne_zero false

theorem flushThrough_eq (s : OpenFile) (lsn : Nat) :
    OpenFile.io (WalManager.flushThrough lsn) s = (.ok true, s.flushedThrough lsn) := by
  rw [io_apply, WalManager.flushThrough, Prog.bind_ok (Prog.get_apply _), flushedThrough]
  split <;> rfl

theorem appendPage_eq (hwal : f.walManager = true) (h : s.Ready f) (page : Page) :
    f.appendPage page s = (.ok true, s.appendedPage f page) := by
  have hready := (h.logged f s.pageCount Page.blank page).flushedThrough
    (page.setPageLsn s.nextLsn).pageLsn
  have hpossible : (Effect.writePage (pathOf f.path) s.pageCount
      (page.setPageLsn s.nextLsn)).possible ((s.logged f s.pageCount Page.blank page).flushedThrough
        (page.setPageLsn s.nextLsn).pageLsn).world.disk.fs = true := hready.parent
  have hwrite : OpenFile.io (perform (.writePage (pathOf f.path) s.pageCount
      (page.setPageLsn s.nextLsn))) ((s.logged f s.pageCount Page.blank page).flushedThrough
        (page.setPageLsn s.nextLsn).pageLsn) =
      (.ok true, ((s.logged f s.pageCount Page.blank page).flushedThrough
        (page.setPageLsn s.nextLsn).pageLsn).written (f.key s.pageCount)
          (page.setPageLsn s.nextLsn)) := by
    rw [io_apply, perform_ok hpossible]
    rfl
  have hnone : (s.grown f page).cache.find (f.key s.pageCount) = none := by
    rw [cache_grown]
    exact h.find_behind (Nat.le_refl _)
  have hnew := newPage_eq (h.grown page) hnone (page.setPageLsn s.nextLsn)
  rw [appendPage, Prog.bind_ok (Prog.get_apply s), Prog.bind_ok (logPageUpdate_eq hwal _ _)]
  simp only [hwal, if_true]
  rw [Prog.bind_ok (flushThrough_eq _ _)]
  simp only [Bool.not_true, Bool.false_eq_true, if_false]
  rw [Prog.bind_ok hwrite]
  simp only [Bool.not_true, Bool.false_eq_true, if_false]
  rw [Prog.bind_ok (Prog.modify_apply _ _)]
  refine (Prog.bind_ok hnew).trans ?_
  simp only [Bool.not_true, Bool.false_eq_true, if_false]
  exact unpinPage_fresh _ _ _

/-! ### Paths -/

theorem steps_single {change : Page → Page → Prop} (h : Step f change s t) :
    Steps f change s t := Relation.ReflTransGen.single h

theorem insertScan_steps (hwal : f.walManager = true) (record : Bytes) {count : Nat}
    (h : s.Ready f) (hk : k + count ≤ s.pageCount) :
    ∃ r t, f.insertScan record count k s = (.ok r, t) ∧ Steps f RowChange s t := by
  induction count generalizing k s with
  | zero => exact ⟨none, s, rfl, .refl⟩
  | succ count ih =>
      have hlt : k < s.pageCount := by omega
      rw [insertScan, Prog.bind_ok (fetchPage_eq h hlt)]
      rcases hins : (s.content (f.key k)).insert record with ⟨_ | slotId, page⟩
      · -- the page has no room, but may come back packed
        have hset : setPage (f.key k) page (s.fetched (f.key k)) =
            (.ok (), (s.fetched (f.key k)).paged (f.key k) page) := rfl
        simp only [hins]
        rw [Prog.bind_ok hset, Prog.bind_ok (unpinPage_fetched h page false)]
        have hstep : Step f RowChange s (s.visited (f.key k) page false) :=
          .visit hlt (Or.inr ⟨record, hins⟩)
        have hrest : k + 1 + count ≤ (s.visited (f.key k) page false).pageCount := by
          rw [pageCount_visited]
          omega
        obtain ⟨r, t, heq, hsteps⟩ := ih (hstep.ready h) hrest
        exact ⟨r, t, heq, hsteps.head hstep⟩
      · simp only [hins]
        rw [Prog.bind_ok (logOrRestore_fetched hwal s page)]
        simp only [Bool.not_true, Bool.false_eq_true, if_false]
        rw [Prog.bind_ok (unpinPage_changed h page)]
        exact ⟨_, _, rfl, steps_single (.update hwal hlt (Or.inl ⟨record, slotId, hins⟩))⟩

theorem insertRecord_steps (hwal : f.walManager = true) (record : Bytes) (h : s.Ready f) :
    Steps f RowChange s (f.insertRecord record s).2 := by
  have hcount : 0 + s.pageCount ≤ s.pageCount := by omega
  obtain ⟨r, t, heq, hsteps⟩ := insertScan_steps hwal record h hcount
  rw [insertRecord, Prog.bind_ok (Prog.get_apply s), Prog.bind_ok heq]
  rcases r with _ | recordId
  swap
  · exact hsteps
  rcases hins : Page.blank.insert record with ⟨_ | slotId, page⟩
  · exact hsteps
  · simp only
    rw [Prog.bind_ok (Prog.get_apply t), Prog.bind_ok (appendPage_eq hwal (hsteps.ready h) page)]
    exact hsteps.tail (.append hwal (Or.inl ⟨record, slotId, hins⟩))

theorem deleteRecord_steps (hwal : f.walManager = true) (recordId : RecordId) (h : s.Ready f) :
    Steps f RowChange s (f.deleteRecord recordId s).2 := by
  rw [deleteRecord, Prog.bind_ok (Prog.get_apply s)]
  by_cases hk : recordId.pageId ≥ s.pageCount
  · rw [if_pos hk]
    exact .refl
  have hlt : recordId.pageId < s.pageCount := Nat.not_le.mp hk
  rw [if_neg hk, Prog.bind_ok (fetchPage_eq h hlt)]
  rcases hrem : (s.content (f.key recordId.pageId)).remove recordId.slotId with ⟨_ | _, page⟩
  · simp only [hrem]
    rw [Prog.bind_ok (unpinPage_visit h _)]
    exact steps_single (.visit hlt (Or.inl rfl))
  · simp only [hrem]
    rw [Prog.bind_ok (logOrRestore_fetched hwal s page)]
    simp only [Bool.not_true, Bool.false_eq_true, if_false]
    rw [unpinPage_changed h page]
    exact steps_single (.update hwal hlt (Or.inr (Or.inl ⟨_, hrem⟩)))

theorem updateRecord_steps (hwal : f.walManager = true) (recordId : RecordId) (record : Bytes)
    (h : s.Ready f) : Steps f RowChange s (f.updateRecord recordId record s).2 := by
  rw [updateRecord, Prog.bind_ok (Prog.get_apply s)]
  by_cases hk : recordId.pageId ≥ s.pageCount
  · rw [if_pos hk]
    exact .refl
  have hlt : recordId.pageId < s.pageCount := Nat.not_le.mp hk
  rw [if_neg hk, Prog.bind_ok (fetchPage_eq h hlt)]
  have hvisit : Step f RowChange s (s.visited (f.key recordId.pageId)
      (s.content (f.key recordId.pageId)) false) := .visit hlt (Or.inl rfl)
  simp only
  by_cases hread : ((s.content (f.key recordId.pageId)).read recordId.slotId).isNone = true
  · rw [if_pos hread, Prog.bind_ok (unpinPage_visit h _)]
    exact steps_single hvisit
  rw [if_neg hread]
  rcases hup : (s.content (f.key recordId.pageId)).update recordId.slotId record with ⟨_ | _, page⟩
  · -- the record moves: an insert, then a delete
    simp only
    rw [Prog.bind_ok (unpinPage_visit h _)]
    have hinsert := insertRecord_steps hwal record (hvisit.ready h)
    generalize s.visited (f.key recordId.pageId) (s.content (f.key recordId.pageId)) false = v
      at hvisit hinsert
    rcases hrun : f.insertRecord record v with ⟨e | newRecordId, t⟩
    · have hrescue : Prog.rescue (do
            let newRecordId ← f.insertRecord record
            pure (some newRecordId)) (· == .exception) (pure none) v =
          (if e == .exception then .ok none else .error e, t) := by
        rw [Prog.rescue, Prog.bind_error hrun]
        cases e <;> rfl
      rw [hrun] at hinsert
      have hpath := hinsert.head hvisit
      cases e
      · rw [Prog.bind_ok hrescue]
        exact hpath
      · rw [Prog.bind_error hrescue]
        exact hpath
    · have hrescue : Prog.rescue (do
            let newRecordId ← f.insertRecord record
            pure (some newRecordId)) (· == .exception) (pure none) v =
          (.ok (some newRecordId), t) := by
        rw [Prog.rescue, Prog.bind_ok hrun]
        rfl
      rw [hrun] at hinsert
      have hpath : Steps f RowChange s t := hinsert.head hvisit
      rw [Prog.bind_ok hrescue]
      simp only
      have hdelete := deleteRecord_steps hwal recordId (hpath.ready h)
      rcases hdel : f.deleteRecord recordId t with ⟨e | deleted, u⟩
      · rw [hdel] at hdelete
        rw [Prog.bind_error hdel]
        exact hpath.trans hdelete
      · rw [hdel] at hdelete
        rw [Prog.bind_ok hdel]
        have hpath : Steps f RowChange s u := hpath.trans hdelete
        cases deleted
        · -- the old record stays, and the new one is taken away again
          have hdelete := deleteRecord_steps hwal newRecordId (hpath.ready h)
          simp only [Bool.false_eq_true, if_false]
          rcases hdel : f.deleteRecord newRecordId u with ⟨e | deleted, u'⟩
          · rw [hdel] at hdelete
            rw [Prog.bind_error hdel]
            exact hpath.trans hdelete
          · rw [hdel] at hdelete
            rw [Prog.bind_ok hdel]
            exact hpath.trans hdelete
        · exact hpath
  · simp only
    rw [Prog.bind_ok (logOrRestore_fetched hwal s page)]
    simp only [Bool.not_true, Bool.false_eq_true, if_false]
    rw [Prog.bind_ok (unpinPage_changed h page)]
    exact steps_single (.update hwal hlt (Or.inr (Or.inr ⟨_, _, hup⟩)))

theorem writePage_eq (hwal : f.walManager = true) (page : Page) (h : s.Ready f)
    (hk : k < s.pageCount) : f.writePage k page s = (.ok true, s.updated f k page) := by
  rw [writePage, Prog.bind_ok (Prog.get_apply s), if_neg (Nat.not_le.mpr hk),
    Prog.bind_ok (fetchPage_eq h hk)]
  simp only
  rw [Prog.bind_ok (logOrRestore_fetched hwal s page)]
  exact unpinPage_changed h page

theorem writePage_steps (hwal : f.walManager = true) (k : Nat) (page : Page) (h : s.Ready f) :
    Steps f (fun _ _ => True) s (f.writePage k page s).2 := by
  by_cases hk : k < s.pageCount
  · rw [writePage_eq hwal page h hk]
    exact steps_single (.update hwal hk trivial)
  · rw [writePage, Prog.bind_ok (Prog.get_apply s), if_pos (Nat.not_lt.mp hk)]
    exact .refl

variable {change : Page → Page → Prop}

theorem readRecord_steps (recordId : RecordId) (h : s.Ready f) :
    Steps f change s (f.readRecord recordId s).2 := by
  by_cases hk : recordId.pageId < s.pageCount
  · rw [readRecord, Prog.bind_ok (readPage_eq h hk)]
    exact steps_single (.visit hk (Or.inl rfl))
  · rw [readRecord, Prog.bind_ok (readPage_behind (Nat.not_lt.mp hk))]
    exact .refl

theorem scanPages_steps {α : Type} (callback : α → RecordId → Bytes → α × Bool) {count : Nat}
    (a : α) (h : s.Ready f) (hk : k + count ≤ s.pageCount) :
    Steps f change s (f.scanPages callback count k a s).2 := by
  induction count generalizing k s a with
  | zero => exact .refl
  | succ count ih =>
      have hlt : k < s.pageCount := by omega
      have hstep : Step f change s (s.visited (f.key k) (s.content (f.key k)) false) :=
        .visit hlt (Or.inl rfl)
      rw [scanPages, Prog.bind_ok (readPage_eq h hlt)]
      simp only
      rcases scanSlots (s.content (f.key k)) k callback (s.content (f.key k)).slotCount 0 a with
        ⟨b, _ | _⟩
      · exact steps_single hstep
      · have hrest : k + 1 + count ≤
            (s.visited (f.key k) (s.content (f.key k)) false).pageCount := by
          rw [pageCount_visited]
          omega
        exact (ih b (hstep.ready h) hrest).head hstep

theorem scanRecordsWith_steps {α : Type} (callback : α → RecordId → Bytes → α × Bool) (a : α)
    (h : s.Ready f) : Steps f change s (f.scanRecordsWith callback a s).2 := by
  rw [scanRecordsWith, Prog.bind_ok (Prog.get_apply s)]
  exact scanPages_steps callback a h (by omega)

/-! ### Flushing -/

theorem writeFrame_eq (h : s.Ready f) {frame : CachedPageFrame}
    (hfind : s.cache.find frame.key = some frame) :
    writeFrame frame f.walManager s = (.ok true,
      (if f.walManager then s.flushedThrough frame.page.pageLsn else s).written frame.key
        frame.page) := by
  have hparent : s.world.disk.fs.parentExists frame.key.tableFile = true := by
    rw [(h.find_inv hfind).1]
    exact h.parent
  rw [writeFrame]
  cases f.walManager
  · exact OpenFile.writeFrame_eq hparent
  · have hflushed : (s.flushedThrough frame.page.pageLsn).world.disk.fs.parentExists
        frame.key.tableFile = true := by rwa [disk_flushedThrough]
    have hpossible : (Effect.writePage frame.key.tableFile frame.key.pageId frame.page).possible
        (s.flushedThrough frame.page.pageLsn).world.disk.fs = true := hflushed
    simp only [if_true]
    rw [Prog.bind_ok (flushThrough_eq _ _)]
    simp only [Bool.not_true, Bool.false_eq_true, if_false]
    rw [io_apply, perform_ok hpossible]
    rfl

theorem find_cleaned (f : TableFile) (s : OpenFile) (frame : CachedPageFrame)
    (key : CachedPageKey) : (s.cleaned f frame).cache.find key =
      if key = frame.key then (s.cache.find key).map .clean else s.cache.find key := by
  have hclean : ∀ frame : CachedPageFrame, frame.clean.key = frame.key := fun _ => rfl
  have hcache : (s.cleaned f frame).cache = s.cache.change frame.key .clean := by
    unfold cleaned
    split <;> simp [written]
  rw [hcache, find_change _ _ _ hclean]

/-- The flush loop is a path, and what stays dirty was not among its keys. -/
theorem flushLoop_steps {change : Page → Page → Prop} (keys : List CachedPageKey)
    (h : s.Ready f) : ∃ t, flushLoop f.walManager keys s = (.ok true, t) ∧
      Steps f change s t ∧ ∀ key frame, t.cache.find key = some frame → frame.isDirty = true →
        key ∉ keys ∧ s.cache.find key = some frame := by
  induction keys generalizing s with
  | nil => exact ⟨s, rfl, .refl, fun _ _ hfind _ => ⟨List.not_mem_nil, hfind⟩⟩
  | cons key keys ih =>
      rw [flushLoop, Prog.bind_ok (Prog.get_apply s)]
      rcases hfind : s.cache.find key with _ | frame
      · obtain ⟨t, heq, hsteps, hdirty⟩ := ih h
        refine ⟨t, heq, hsteps, fun key' frame hframe hd => ?_⟩
        obtain ⟨hnot, hold⟩ := hdirty key' frame hframe hd
        refine ⟨List.not_mem_cons_of_ne_of_not_mem (fun heq => ?_) hnot, hold⟩
        rw [heq, hfind] at hold
        cases hold
      obtain ⟨-, rfl⟩ := mem_of_find hfind
      by_cases hd : frame.isDirty = true
      · have hstep : Step f change s (s.cleaned f frame) := .clean hfind hd
        obtain ⟨t, heq, hsteps, hdirty⟩ := ih (hstep.ready h)
        refine ⟨t, ?_, hsteps.head hstep, fun key' frame' hframe hd' => ?_⟩
        · simp only [hd, Bool.not_true, Bool.false_eq_true, if_false]
          rw [Prog.bind_ok (writeFrame_eq h hfind)]
          exact heq
        · obtain ⟨hnot, hold⟩ := hdirty key' frame' hframe hd'
          rw [find_cleaned] at hold
          have hne : key' ≠ frame.key := fun heq => by
            rw [if_pos heq, heq, hfind] at hold
            rw [← Option.some.inj hold] at hd'
            cases hd'
          rw [if_neg hne] at hold
          exact ⟨List.not_mem_cons_of_ne_of_not_mem hne hnot, hold⟩
      · obtain ⟨t, heq, hsteps, hdirty⟩ := ih h
        refine ⟨t, ?_, hsteps, fun key' frame' hframe hd' => ?_⟩
        · simp only [hd]
          exact heq
        · obtain ⟨hnot, hold⟩ := hdirty key' frame' hframe hd'
          refine ⟨List.not_mem_cons_of_ne_of_not_mem (fun heq => ?_) hnot, hold⟩
          rw [heq, hfind] at hold
          rw [← Option.some.inj hold] at hd'
          exact hd hd'

/-- A flush leaves no dirty frame. -/
theorem flush_steps {change : Page → Page → Prop} (order : HashOrder) (h : s.Ready f) :
    ∃ t, f.flush order s = (.ok true, t) ∧ Steps f change s t ∧
      ∀ key frame, t.cache.find key = some frame → frame.isDirty = false := by
  obtain ⟨t, heq, hsteps, hdirty⟩ := flushLoop_steps
    (order.walk (s.cache.pages.map (·.key))) h
  refine ⟨t, heq, hsteps, fun key frame hframe => ?_⟩
  cases hd : frame.isDirty
  · rfl
  · obtain ⟨hnot, hold⟩ := hdirty key frame hframe hd
    obtain ⟨hmem, rfl⟩ := mem_of_find hold
    exact absurd ((order.perm _).mem_iff.mpr (List.mem_map_of_mem hmem)) hnot

end TableFile

end ScratchDb
