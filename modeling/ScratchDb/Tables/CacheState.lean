import Mathlib.Data.List.Nodup
import ScratchDb.Recovery.Replay
import ScratchDb.Storage.TableFile

/-!
# What the page cache does to an open file

The bookkeeping of the cache, and each call of it as a change of the open
file: a page comes into the cache, changes there, and goes back to the file.
-/

namespace ScratchDb

open WalManager

namespace PageCache

variable {c : PageCache} {key key' : CachedPageKey} {frame : CachedPageFrame}

/-! ## Finding frames -/

theorem mem_of_find (h : c.find key = some frame) : frame ∈ c.pages ∧ frame.key = key :=
  ⟨List.mem_of_find?_eq_some h, by simpa using List.find?_some h⟩

theorem find_ne_none_iff : c.find key ≠ none ↔ key ∈ c.pages.map (·.key) := by
  simp [find, List.find?_eq_none]

theorem find_emplace_self (c : PageCache) (frame : CachedPageFrame) :
    (c.emplace frame).find frame.key = some frame :=
  List.find?_cons_of_pos (by simp)

theorem find_emplace_of_ne (h : key ≠ frame.key) : (c.emplace frame).find key = c.find key :=
  List.find?_cons_of_neg (by simpa using h.symm)

@[simp] theorem find_splice (c : PageCache) (key key' : CachedPageKey) :
    (c.splice key).find key' = c.find key' := rfl

@[simp] theorem find_erase_self (c : PageCache) (key : CachedPageKey) :
    (c.erase key).find key = none := by
  simp [find, erase, List.find?_eq_none]

theorem find_erase_of_ne (h : key' ≠ key) : (c.erase key).find key' = c.find key' := by
  unfold find erase
  rw [List.find?_filter]
  congr 1
  funext frame
  by_cases hkey : frame.key = key' <;> simp [hkey, h]

theorem find_change (c : PageCache) (key key' : CachedPageKey)
    {f : CachedPageFrame → CachedPageFrame} (hf : ∀ frame, (f frame).key = frame.key) :
    (c.change key f).find key' = if key' = key then (c.find key').map f else c.find key' := by
  unfold find change
  induction c.pages with
  | nil => simp
  | cons g gs ih =>
      rw [List.map_cons]
      by_cases hg : g.key = key'
      · have hkey : (if g.key = key then f g else g).key = key' := by split <;> simp [hf, hg]
        rw [List.find?_cons_of_pos (by simpa using hkey), List.find?_cons_of_pos (by simpa using hg),
          hg]
        split <;> rfl
      · have hkey : (if g.key = key then f g else g).key ≠ key' := by split <;> simp [hf, hg]
        rw [List.find?_cons_of_neg (by simpa using hkey), ih,
          List.find?_cons_of_neg (by simpa using hg)]

/-! ## Bookkeeping -/

/-- `lru_` and `pages_` hold the same keys, each once, and there is room. -/
structure Sound (c : PageCache) : Prop where
  distinct : (c.pages.map (·.key)).Nodup
  lruDistinct : c.lru.Nodup
  listed : ∀ key, key ∈ c.lru ↔ key ∈ c.pages.map (·.key)
  positive : 0 < c.capacity
  room : c.pages.length ≤ c.capacity

theorem Sound.find_of_mem (h : c.Sound) (hmem : frame ∈ c.pages) :
    c.find frame.key = some frame := by
  have hdistinct := h.distinct
  unfold find
  generalize c.pages = pages at hdistinct hmem
  induction pages with
  | nil => cases hmem
  | cons f fs ih =>
      rw [List.map_cons, List.nodup_cons] at hdistinct
      rcases List.mem_cons.mp hmem with rfl | hmem
      · exact List.find?_cons_of_pos (by simp)
      · have hne : f.key ≠ frame.key := fun heq => hdistinct.1 (heq ▸ List.mem_map_of_mem hmem)
        rw [List.find?_cons_of_neg (by simpa using hne)]
        exact ih hdistinct.2 hmem

theorem sound_empty {capacity : Nat} (h : 0 < capacity) : (empty capacity).Sound :=
  ⟨List.nodup_nil, List.nodup_nil, fun _ => Iff.rfl, by simp [empty, h.ne', h], Nat.zero_le _⟩

theorem Sound.cleared (h : c.Sound) : c.cleared.Sound :=
  ⟨List.nodup_nil, List.nodup_nil, fun _ => Iff.rfl, h.positive, Nat.zero_le _⟩

theorem Sound.splice (h : c.Sound) (hkey : c.find key ≠ none) : (c.splice key).Sound := by
  have hmem := (h.listed key).mpr (find_ne_none_iff.mp hkey)
  refine ⟨h.distinct, ?_, fun key' => ?_, h.positive, h.room⟩
  · exact List.nodup_cons.mpr ⟨h.lruDistinct.not_mem_erase, h.lruDistinct.erase key⟩
  · refine Iff.trans ?_ (h.listed key')
    by_cases heq : key' = key
    · subst heq
      simpa [PageCache.splice] using hmem
    · simp [PageCache.splice, heq, List.mem_erase_of_ne heq]

theorem Sound.emplace (h : c.Sound) (hkey : c.find frame.key = none)
    (hroom : c.pages.length < c.capacity) : (c.emplace frame).Sound := by
  have hnot : frame.key ∉ c.pages.map (·.key) := by
    rw [← find_ne_none_iff]
    exact fun hne => hne hkey
  refine ⟨List.nodup_cons.mpr ⟨hnot, h.distinct⟩,
    List.nodup_cons.mpr ⟨fun hmem => hnot ((h.listed _).mp hmem), h.lruDistinct⟩,
    fun key => ?_, h.positive, Nat.succ_le_of_lt hroom⟩
  have hlisted := h.listed key
  simp only [PageCache.emplace, List.mem_cons, List.map_cons]
  rw [hlisted]

theorem Sound.erase (h : c.Sound) (key : CachedPageKey) : (c.erase key).Sound := by
  have hrev : c.lru.reverse.Nodup := List.nodup_reverse.mpr h.lruDistinct
  refine ⟨h.distinct.sublist (List.filter_sublist.map _), List.nodup_reverse.mpr (hrev.erase key),
    fun key' => ?_, h.positive, (List.length_filter_le _ _).trans h.room⟩
  have hlisted := h.listed key'
  simp only [PageCache.erase, List.mem_reverse, hrev.mem_erase_iff, hlisted, List.mem_map,
    List.mem_filter, decide_eq_true_eq]
  constructor
  · rintro ⟨hne, frame, hframe, rfl⟩
    exact ⟨frame, ⟨hframe, hne⟩, rfl⟩
  · rintro ⟨frame, ⟨hframe, hne⟩, rfl⟩
    exact ⟨hne, frame, hframe, rfl⟩

theorem Sound.change (h : c.Sound) (key : CachedPageKey) {f : CachedPageFrame → CachedPageFrame}
    (hf : ∀ frame, (f frame).key = frame.key) : (c.change key f).Sound := by
  have hkeys : (c.change key f).pages.map (·.key) = c.pages.map (·.key) := by
    rw [PageCache.change, List.map_map]
    refine List.map_congr_left fun frame _ => ?_
    rw [Function.comp_apply]
    split <;> simp [hf]
  refine ⟨by rw [hkeys]; exact h.distinct, h.lruDistinct, fun key' => ?_, h.positive, ?_⟩
  · rw [hkeys]
    exact h.listed key'
  · exact (List.length_map _).trans_le h.room

theorem length_erase_lt (hkey : c.find key ≠ none) : (c.erase key).pages.length < c.pages.length := by
  obtain ⟨frame, hframe⟩ := Option.ne_none_iff_exists'.mp hkey
  obtain ⟨hmem, rfl⟩ := mem_of_find hframe
  exact List.length_filter_lt_length_iff_exists.mpr ⟨frame, hmem, by simp⟩

theorem find_of_victim (h : c.victim = some frame) :
    c.find frame.key = some frame ∧ frame.pinCount = 0 := by
  have hmem := List.mem_of_find?_eq_some h
  obtain ⟨key, -, hkey⟩ := List.mem_filterMap.mp hmem
  obtain ⟨-, rfl⟩ := mem_of_find hkey
  exact ⟨hkey, by simpa using List.find?_some h⟩

/-- A cache without pinned frames has a victim. -/
theorem Sound.exists_victim (h : c.Sound) (hpins : ∀ frame ∈ c.pages, frame.pinCount = 0)
    (hne : c.pages ≠ []) : ∃ frame, c.victim = some frame := by
  obtain ⟨frame, hframe⟩ := List.exists_mem_of_ne_nil _ hne
  have hkey : frame.key ∈ c.lru := (h.listed _).mpr (List.mem_map_of_mem hframe)
  rcases hv : c.victim with _ | v
  · have hnone := List.find?_eq_none.mp hv frame
      (List.mem_filterMap.mpr ⟨frame.key, List.mem_reverse.mpr hkey, h.find_of_mem hframe⟩)
    exact absurd (hpins frame hframe) (by simpa using hnone)
  · exact ⟨v, rfl⟩

end PageCache

namespace OpenFile

/-! ## The calls as changes of the state -/

/-- What is logically in a page: its frame, or the file. -/
def content (s : OpenFile) (key : CachedPageKey) : Page :=
  match s.cache.find key with
  | some frame => frame.page
  | none => s.world.disk.fs.pageAt key.tableFile key.pageId

/-- The page has a frame that must still be written. -/
def isDirty (s : OpenFile) (key : CachedPageKey) : Bool :=
  match s.cache.find key with
  | some frame => frame.isDirty
  | none => false

/-- The file with block `key` written. -/
def written (s : OpenFile) (key : CachedPageKey) (page : Page) : OpenFile :=
  let e := Effect.writePage key.tableFile key.pageId page
  { s with world := s.world.advance [e] s.world.manager.lastLsn }

/-- The frame leaves the cache, and a dirty one is written. -/
def evicted (s : OpenFile) (frame : CachedPageFrame) : OpenFile :=
  { s with
    world := if frame.isDirty then (s.written frame.key frame.page).world else s.world
    cache := s.cache.erase frame.key }

/-- The least recently used frame goes when there is no room. -/
def roomed (s : OpenFile) : OpenFile :=
  if s.cache.pages.length < s.cache.capacity then s
  else match s.cache.victim with
    | none => s
    | some frame => s.evicted frame

/-- `noteAccess`. -/
def noted (s : OpenFile) (key : CachedPageKey) : OpenFile :=
  { s with accesses := s.accesses ++ [⟨s.cache, key, s.world.manager.durableLsn⟩] }

def missed (s : OpenFile) : OpenFile :=
  { s with cache := { s.cache with missCount := s.cache.missCount + 1 } }

/-- `fetch_page` before the frame is pinned. -/
def madeRoom (s : OpenFile) (key : CachedPageKey) : OpenFile :=
  match s.cache.find key with
  | some _ => s.noted key
  | none => (s.noted key).missed.roomed

/-- The frame of `key` pinned and moved to the front. -/
def hit (s : OpenFile) (key : CachedPageKey) : OpenFile :=
  let cache := (s.cache.change key .pin).splice key
  { s with cache := { cache with hitCount := s.cache.hitCount + 1 } }

/-- A pinned frame for the page of the file. -/
def loaded (s : OpenFile) (key : CachedPageKey) : OpenFile :=
  let page := s.world.disk.fs.pageAt key.tableFile key.pageId
  { s with cache := s.cache.emplace ⟨key, page, false, 1⟩ }

/-- The state `fetch_page` leaves. -/
def fetched (s : OpenFile) (key : CachedPageKey) : OpenFile :=
  match s.cache.find key with
  | some _ => (s.madeRoom key).hit key
  | none => (s.madeRoom key).loaded key

/-- `setPage`. -/
def paged (s : OpenFile) (key : CachedPageKey) (page : Page) : OpenFile :=
  { s with cache := s.cache.change key (.hold page) }

/-- `unpin_page` of a pinned page. -/
def released (s : OpenFile) (key : CachedPageKey) (dirty : Bool) : OpenFile :=
  { s with cache := s.cache.change key (.unpin dirty) }

/-- A page fetched, changed and unpinned. -/
def visited (s : OpenFile) (key : CachedPageKey) (page : Page) (dirty : Bool) : OpenFile :=
  ((s.fetched key).paged key page).released key dirty

/-- The cache keeps its books, no frame is pinned, and all are of one file. -/
structure Tidy (s : OpenFile) (file : Path) : Prop where
  sound : s.cache.Sound
  ours : ∀ frame ∈ s.cache.pages, frame.key.tableFile = file
  unpinned : ∀ frame ∈ s.cache.pages, frame.pinCount = 0
  parent : s.world.disk.fs.parentExists file = true

variable {f : TableFile} {s t : OpenFile} {key : CachedPageKey} {frame : CachedPageFrame}

theorem io_apply {α : Type} (m : Io α) (s : OpenFile) :
    io m s = ((m s.world).1, { s with world := (m s.world).2 }) := rfl

theorem writeFrame_eq (h : s.world.disk.fs.parentExists frame.key.tableFile = true) :
    PageCache.writeFrame frame false s = (.ok true, s.written frame.key frame.page) := by
  have hperform : io (perform (.writePage frame.key.tableFile frame.key.pageId frame.page)) s =
      (.ok true, s.written frame.key frame.page) := by
    have hpossible : (Effect.writePage frame.key.tableFile frame.key.pageId frame.page).possible
        s.world.disk.fs = true := h
    rw [io_apply, perform_ok hpossible]
    rfl
  exact hperform

theorem makeRoom_of_room (h : s.cache.pages.length < s.cache.capacity) (wal : Bool) (rounds : Nat) :
    PageCache.makeRoom wal rounds s = (.ok true, s) := by
  cases rounds with
  | zero => rfl
  | succ rounds =>
      rw [PageCache.makeRoom, Prog.bind_ok (Prog.get_apply s), if_pos h]
      rfl

theorem evictOnePage_eq (hv : s.cache.victim = some frame)
    (h : s.world.disk.fs.parentExists frame.key.tableFile = true) :
    PageCache.evictOnePage false s = (.ok true, s.evicted frame) := by
  rw [PageCache.evictOnePage, Prog.bind_ok (Prog.get_apply s), hv]
  by_cases hd : frame.isDirty = true
  · simp only [if_pos hd, evicted]
    rw [Prog.bind_ok (writeFrame_eq h)]
    rfl
  · simp only [if_neg hd, evicted]
    rfl

variable {file : Path}

/-- Either there is room, or the victim goes. -/
theorem roomed_cases (h : s.Tidy file) :
    (s.cache.pages.length < s.cache.capacity ∧ s.roomed = s) ∨
    ∃ frame, s.cache.victim = some frame ∧ ¬s.cache.pages.length < s.cache.capacity ∧
      s.roomed = s.evicted frame := by
  by_cases hroom : s.cache.pages.length < s.cache.capacity
  · exact Or.inl ⟨hroom, if_pos hroom⟩
  · have hne : s.cache.pages ≠ [] := fun hnil => by
      rw [hnil] at hroom
      exact hroom h.sound.positive
    obtain ⟨v, hv⟩ := h.sound.exists_victim h.unpinned hne
    exact Or.inr ⟨v, hv, hroom, by rw [roomed, if_neg hroom, hv]⟩

theorem length_roomed (h : s.Tidy file) :
    s.roomed.cache.pages.length < s.roomed.cache.capacity := by
  rcases roomed_cases h with ⟨hroom, heq⟩ | ⟨v, hv, -, heq⟩
  · rwa [heq]
  · rw [heq]
    exact (PageCache.length_erase_lt (by simp [(PageCache.find_of_victim hv).1])).trans_le
      h.sound.room

theorem makeRoom_eq (h : s.Tidy file) :
    PageCache.makeRoom false s.cache.pages.length s = (.ok true, s.roomed) := by
  have hlt := length_roomed h
  rcases roomed_cases h with ⟨hroom, heq⟩ | ⟨v, hv, hroom, heq⟩
  · rw [makeRoom_of_room hroom, heq]
  · obtain ⟨hmem, -⟩ := PageCache.mem_of_find (PageCache.find_of_victim hv).1
    have hparent : s.world.disk.fs.parentExists v.key.tableFile = true := by
      rw [h.ours v hmem]
      exact h.parent
    obtain ⟨rounds, hrounds⟩ := Nat.exists_eq_succ_of_ne_zero (List.length_pos_of_mem hmem).ne'
    have hevict : PageCache.evictOnePage false s = (.ok true, s.roomed) := by
      rw [evictOnePage_eq hv hparent, heq]
    rw [hrounds, PageCache.makeRoom, Prog.bind_ok (Prog.get_apply s), if_neg hroom,
      Prog.bind_ok hevict]
    exact makeRoom_of_room hlt _ _

theorem find_roomed (h : s.Tidy file) (key : CachedPageKey) :
    s.roomed.cache.find key = s.cache.find key ∨
      s.roomed.cache.find key = none ∧ ∃ frame, s.cache.find key = some frame ∧
        (frame.isDirty = false ∨
          s.roomed.world.disk.fs.pageAt key.tableFile key.pageId = frame.page) := by
  rcases roomed_cases h with ⟨-, heq⟩ | ⟨v, hv, -, heq⟩
  · exact Or.inl (by rw [heq])
  · obtain ⟨hfind, -⟩ := PageCache.find_of_victim hv
    by_cases hkey : key = v.key
    · subst hkey
      refine Or.inr ⟨by rw [heq]; exact PageCache.find_erase_self _ _, v, hfind, ?_⟩
      by_cases hd : v.isDirty = true
      · refine Or.inr ?_
        rw [heq, evicted, if_pos hd]
        exact (pageAt_writePage _ _ _ _ _ _).trans (if_pos ⟨rfl, rfl⟩)
      · exact Or.inl (by simpa using hd)
    · exact Or.inl (by rw [heq]; exact PageCache.find_erase_of_ne hkey)

/-- Only pages with a frame are written when room is made. -/
theorem pageAt_roomed (h : s.Tidy file) {key : CachedPageKey} (hnone : s.cache.find key = none) :
    s.roomed.world.disk.fs.pageAt key.tableFile key.pageId =
      s.world.disk.fs.pageAt key.tableFile key.pageId := by
  rcases roomed_cases h with ⟨-, heq⟩ | ⟨v, hv, -, heq⟩
  · rw [heq]
  · obtain ⟨hfind, -⟩ := PageCache.find_of_victim hv
    by_cases hd : v.isDirty = true
    swap
    · rw [heq, evicted, if_neg hd]
    · rw [heq, evicted, if_pos hd]
      refine (pageAt_writePage _ _ _ _ _ _).trans (if_neg ?_)
      rintro ⟨h1, h2⟩
      have hkey : key = v.key := by
        cases key
        cases hv : v.key
        simp_all
      rw [hkey, hfind] at hnone
      cases hnone

theorem pageCount_written (s : OpenFile) (key : CachedPageKey) (page : Page) (p : Path) :
    (s.written key page).world.disk.fs.pageCount p =
      if p = key.tableFile then max (s.world.disk.fs.pageCount p) (key.pageId + 1)
      else s.world.disk.fs.pageCount p := by
  by_cases hp : p = key.tableFile
  · subst hp
    have hpages : ((s.written key page).world.disk.fs.pages key.tableFile).getD [] =
        writeBlock ((s.world.disk.fs.pages key.tableFile).getD []) key.pageId page := by
      simp [written, World.advance, Effect.applyFsAll, Effect.applyFs]
    rw [if_pos rfl, FileSystem.pageCount, hpages, length_writeBlock]
    rfl
  · simp [written, World.advance, Effect.applyFsAll, Effect.applyFs, FileSystem.pageCount, hp]

theorem pageCount_roomed (s : OpenFile) : s.roomed.pageCount = s.pageCount := by
  unfold roomed
  split
  · rfl
  · split <;> rfl

theorem pageCount_madeRoom (s : OpenFile) (key : CachedPageKey) :
    (s.madeRoom key).pageCount = s.pageCount := by
  unfold madeRoom
  split
  · rfl
  · exact pageCount_roomed _

/-- A table file between two operations of it. -/
structure Ready (f : TableFile) (s : OpenFile) : Prop extends Tidy s (pathOf f.path) where
  within : ∀ frame ∈ s.cache.pages, frame.key.pageId < s.pageCount
  count : s.world.disk.fs.pageCount (pathOf f.path) = s.pageCount

theorem Ready.key_eq (h : s.Ready f) (hframe : frame ∈ s.cache.pages) :
    frame.key = f.key frame.key.pageId := by
  have hfile := h.ours frame hframe
  cases hkey : frame.key
  simp_all [TableFile.key]

theorem Ready.evicted (h : s.Ready f) (hfind : s.cache.find frame.key = some frame) :
    (s.evicted frame).Ready f where
  sound := h.sound.erase _
  ours g hg := h.ours g (List.mem_of_mem_filter hg)
  unpinned g hg := h.unpinned g (List.mem_of_mem_filter hg)
  parent := by
    have hparent := h.parent
    unfold OpenFile.evicted
    split <;> exact hparent
  within g hg := h.within g (List.mem_of_mem_filter hg)
  count := by
    have hmem := (PageCache.mem_of_find hfind).1
    have hwithin := h.within frame hmem
    have hcount := h.count
    by_cases hd : frame.isDirty = true
    · simp only [OpenFile.evicted, if_pos hd, pageCount_written]
      rw [h.ours frame hmem, if_pos rfl, hcount]
      exact max_eq_left hwithin
    · simpa only [OpenFile.evicted, if_neg hd] using hcount

theorem Ready.roomed (h : s.Ready f) : s.roomed.Ready f := by
  rcases roomed_cases h.toTidy with ⟨-, heq⟩ | ⟨v, hv, -, heq⟩
  · rwa [heq]
  · rw [heq]
    exact h.evicted (PageCache.find_of_victim hv).1

theorem Ready.noted (h : s.Ready f) (key : CachedPageKey) : (s.noted key).Ready f :=
  ⟨⟨h.sound, h.ours, h.unpinned, h.parent⟩, h.within, h.count⟩

theorem Ready.missed (h : s.Ready f) : s.missed.Ready f :=
  ⟨⟨⟨h.sound.distinct, h.sound.lruDistinct, h.sound.listed, h.sound.positive, h.sound.room⟩,
    h.ours, h.unpinned, h.parent⟩, h.within, h.count⟩

theorem Ready.madeRoom (h : s.Ready f) (key : CachedPageKey) : (s.madeRoom key).Ready f := by
  unfold OpenFile.madeRoom
  split
  · exact h.noted key
  · exact (h.noted key).missed.roomed

theorem fetchPage_eq (h : s.Ready f) {k : Nat} (hk : k < s.pageCount) :
    PageCache.fetchPage (f.key k) false s =
      (.ok (some (s.content (f.key k))), s.fetched (f.key k)) := by
  have hnote : PageCache.noteAccess (f.key k) s = (.ok (), s.noted (f.key k)) := rfl
  rw [PageCache.fetchPage, Prog.bind_ok hnote, Prog.bind_ok (Prog.get_apply _)]
  have hfind : (s.noted (f.key k)).cache.find (f.key k) = s.cache.find (f.key k) := rfl
  rw [hfind]
  rcases hkey : s.cache.find (f.key k) with _ | frame
  · have hready := (h.noted (f.key k)).missed
    have hroom : s.madeRoom (f.key k) = (s.noted (f.key k)).missed.roomed := by
      rw [OpenFile.madeRoom, hkey]
    have hcontent : s.content (f.key k) =
        (s.madeRoom (f.key k)).world.disk.fs.pageAt (f.key k).tableFile (f.key k).pageId := by
      rw [content, hkey, hroom, pageAt_roomed hready.toTidy hkey]
      rfl
    have hread : PageCache.readPageFromDisk (f.key k) (s.madeRoom (f.key k)) =
        (.ok (some (s.content (f.key k))), s.madeRoom (f.key k)) := by
      have hcount := (h.madeRoom (f.key k)).count
      have hcountEq : (s.madeRoom (f.key k)).pageCount = s.pageCount := pageCount_madeRoom s _
      have hlt : (f.key k).pageId <
          (s.madeRoom (f.key k)).world.disk.fs.pageCount (f.key k).tableFile := by
        exact (hcount.trans hcountEq).symm ▸ hk
      rw [PageCache.readPageFromDisk, Prog.bind_ok (Prog.get_apply _), if_pos hlt, hcontent]
      rfl
    have hmake := makeRoom_eq hready.toTidy
    rw [← hroom] at hmake
    simp only [PageCache.modifyCache]
    rw [Prog.bind_ok (Prog.modify_apply _ _)]
    refine (Prog.bind_ok hmake).trans ?_
    refine (Prog.bind_ok hread).trans ?_
    rw [fetched, hkey, loaded, ← hcontent]
    rfl
  · rw [content, hkey, fetched, hkey, madeRoom, hkey]
    rfl

/-- What a fetch leaves in the cache. -/
theorem find_fetched (h : s.Ready f) (key key' : CachedPageKey) :
    (s.fetched key).cache.find key' =
      if key' = key then some ⟨key, s.content key, s.isDirty key, 1⟩
      else (s.madeRoom key).cache.find key' := by
  rcases hkey : s.cache.find key with _ | frame
  · rw [fetched, hkey]
    by_cases heq : key' = key
    · subst heq
      have hcontent : s.content key' =
          (s.madeRoom key').world.disk.fs.pageAt key'.tableFile key'.pageId := by
        rw [content, hkey, madeRoom, hkey, pageAt_roomed (h.noted key').missed.toTidy hkey]
        rfl
      rw [if_pos rfl, isDirty, hkey, hcontent]
      exact PageCache.find_emplace_self _ _
    · rw [if_neg heq]
      exact PageCache.find_emplace_of_ne heq
  · obtain ⟨hmem, hframe⟩ := PageCache.mem_of_find hkey
    have hroom : s.madeRoom key = s.noted key := by rw [madeRoom, hkey]
    rw [fetched, hkey, hroom]
    have hpin : ∀ frame : CachedPageFrame, frame.pin.key = frame.key := fun _ => rfl
    refine (PageCache.find_change _ _ _ hpin).trans ?_
    by_cases heq : key' = key
    · subst heq
      rw [if_pos rfl, if_pos rfl, content, isDirty, hkey]
      have hfind : (s.noted key').cache.find key' = some frame := hkey
      rw [hfind, Option.map_some, CachedPageFrame.pin, h.unpinned frame hmem, hframe]
    · rw [if_neg heq, if_neg heq]

theorem sound_fetched (h : s.Ready f) (key : CachedPageKey) : (s.fetched key).cache.Sound := by
  rcases hkey : s.cache.find key with _ | frame
  · have hready := (h.noted key).missed
    have hroom : s.madeRoom key = (s.noted key).missed.roomed := by rw [madeRoom, hkey]
    rw [fetched, hkey]
    refine (h.madeRoom key).sound.emplace ?_ ?_
    · rw [hroom]
      rcases find_roomed hready.toTidy key with hsame | ⟨hnone, -⟩
      · rw [hsame]
        exact hkey
      · exact hnone
    · rw [hroom]
      exact length_roomed hready.toTidy
  · have hroom : s.madeRoom key = s.noted key := by rw [madeRoom, hkey]
    rw [fetched, hkey, hroom]
    have hpin : ∀ frame : CachedPageFrame, frame.pin.key = frame.key := fun _ => rfl
    have hpinned : (s.cache.change key .pin).find key ≠ none := by
      rw [PageCache.find_change _ _ _ hpin, if_pos rfl, hkey]
      simp
    have hsound := (h.sound.change key hpin).splice hpinned
    exact ⟨hsound.distinct, hsound.lruDistinct, hsound.listed, hsound.positive, hsound.room⟩

theorem find_visited (h : s.Ready f) (key : CachedPageKey) (page : Page) (dirty : Bool)
    (key' : CachedPageKey) :
    (s.visited key page dirty).cache.find key' =
      if key' = key then some ⟨key, page, s.isDirty key || dirty, 0⟩
      else (s.madeRoom key).cache.find key' := by
  have hhold : ∀ frame : CachedPageFrame, (frame.hold page).key = frame.key := fun _ => rfl
  have hunpin : ∀ frame : CachedPageFrame, (frame.unpin dirty).key = frame.key := fun _ => rfl
  refine (PageCache.find_change _ _ _ hunpin).trans ?_
  have hpaged := PageCache.find_change (s.fetched key).cache key key' hhold
  simp only [paged, hpaged, find_fetched h]
  by_cases heq : key' = key
  · simp [heq, CachedPageFrame.hold, CachedPageFrame.unpin]
  · simp [heq]

@[simp] theorem world_visited (s : OpenFile) (key : CachedPageKey) (page : Page) (dirty : Bool) :
    (s.visited key page dirty).world = (s.madeRoom key).world := by
  rcases hkey : s.cache.find key with _ | frame <;> simp only [visited, released, paged, fetched, hkey] <;>
    rfl

@[simp] theorem pageCount_visited (s : OpenFile) (key : CachedPageKey) (page : Page) (dirty : Bool) :
    (s.visited key page dirty).pageCount = s.pageCount := by
  refine Eq.trans ?_ (pageCount_madeRoom s key)
  rcases hkey : s.cache.find key with _ | frame <;> simp only [visited, released, paged, fetched, hkey] <;>
    rfl

theorem accesses_roomed (s : OpenFile) : s.roomed.accesses = s.accesses := by
  unfold roomed
  split
  · rfl
  · split <;> rfl

theorem accesses_madeRoom (s : OpenFile) (key : CachedPageKey) :
    (s.madeRoom key).accesses = s.accesses ++ [⟨s.cache, key, s.world.manager.durableLsn⟩] := by
  unfold madeRoom
  split
  · rfl
  · exact accesses_roomed _

@[simp] theorem accesses_visited (s : OpenFile) (key : CachedPageKey) (page : Page) (dirty : Bool) :
    (s.visited key page dirty).accesses =
      s.accesses ++ [⟨s.cache, key, s.world.manager.durableLsn⟩] := by
  refine Eq.trans ?_ (accesses_madeRoom s key)
  rcases hkey : s.cache.find key with _ | frame <;> simp only [visited, released, paged, fetched, hkey] <;>
    rfl

/-- The frames of a sound cache, found by their keys. -/
theorem Ready.of_find (hsound : s.cache.Sound)
    (hframes : ∀ key frame, s.cache.find key = some frame →
      key.tableFile = pathOf f.path ∧ key.pageId < s.pageCount ∧ frame.pinCount = 0)
    (hparent : s.world.disk.fs.parentExists (pathOf f.path) = true)
    (hcount : s.world.disk.fs.pageCount (pathOf f.path) = s.pageCount) : s.Ready f where
  sound := hsound
  ours _ hframe := (hframes _ _ (hsound.find_of_mem hframe)).1
  unpinned _ hframe := (hframes _ _ (hsound.find_of_mem hframe)).2.2
  parent := hparent
  within _ hframe := (hframes _ _ (hsound.find_of_mem hframe)).2.1
  count := hcount

theorem Ready.find_inv (h : s.Ready f) (hfind : s.cache.find key = some frame) :
    key.tableFile = pathOf f.path ∧ key.pageId < s.pageCount ∧ frame.pinCount = 0 := by
  obtain ⟨hmem, rfl⟩ := PageCache.mem_of_find hfind
  exact ⟨h.ours _ hmem, h.within _ hmem, h.unpinned _ hmem⟩

theorem sound_visited (h : s.Ready f) (key : CachedPageKey) (page : Page) (dirty : Bool) :
    (s.visited key page dirty).cache.Sound := by
  have hhold : ∀ frame : CachedPageFrame, (frame.hold page).key = frame.key := fun _ => rfl
  have hunpin : ∀ frame : CachedPageFrame, (frame.unpin dirty).key = frame.key := fun _ => rfl
  exact ((sound_fetched h key).change key hhold).change key hunpin

theorem Ready.visited (h : s.Ready f) {k : Nat} (hk : k < s.pageCount) (page : Page)
    (dirty : Bool) : (s.visited (f.key k) page dirty).Ready f := by
  refine Ready.of_find (sound_visited h _ _ _) (fun key frame hfind => ?_) ?_ ?_
  · rw [find_visited h] at hfind
    rw [pageCount_visited]
    by_cases heq : key = f.key k
    · rw [if_pos heq] at hfind
      obtain rfl := Option.some.inj hfind
      subst heq
      exact ⟨rfl, hk, rfl⟩
    · rw [if_neg heq] at hfind
      have hinv := (h.madeRoom (f.key k)).find_inv hfind
      rwa [pageCount_madeRoom] at hinv
  · rw [world_visited]
    exact (h.madeRoom (f.key k)).parent
  · rw [world_visited, pageCount_visited, ← pageCount_madeRoom s (f.key k)]
    exact (h.madeRoom (f.key k)).count

end OpenFile

end ScratchDb
